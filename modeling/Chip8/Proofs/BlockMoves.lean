import Chip8.Proofs.Footprint
/-!
# Blocks of registers in memory

A block of registers lies in a row of cells from the index register on, the
row going on at the start of memory when it passes the end. Sixteen cells in
a row are all different, so each register is found in its own
(`exists_stored`, `exists_loaded`), and to store and to load undo each other
(`block_moves_inverse`).
-/

namespace Chip8

namespace Address

/-- A row of fewer cells than there are does not come back to the one before
its first. -/
theorem not_inRow_succ {start : UInt16} {count : Nat} (h : count < 4096) :
    ¬InRow (start + 1) count (ofWord start) := by
  rintro ⟨k, hk, hcell⟩
  rw [← Word.add_ofNat_succ_left, ofWord_add_ofNat, Fin.ext_iff, val_ofWord, val_past] at hcell
  omega

end Address

namespace Memory

/-- Memories with the same bytes are the same. -/
theorem ext_get {m n : Memory} (h : ∀ cell, m.cells.get cell = n.cells.get cell) : m = n := by
  obtain ⟨cells⟩ := m
  obtain ⟨cells'⟩ := n
  exact congrArg Memory.mk (Buffer.ext_get h)

/-- **A block that fits into memory is there once it is written**, each byte
in its own cell. -/
theorem read_writeBlock (m : Memory) {start : UInt16} {block : List UInt8}
    (hfits : block.length ≤ 4096) {k : Nat} (hk : k < block.length) :
    (m.writeBlock start block).read (start + UInt16.ofNat k) = block[k] := by
  induction block generalizing m start k with
  | nil => cases hk
  | cons b block ih =>
    rw [List.length_cons] at hfits hk
    rw [writeBlock]
    cases k with
    | zero =>
      -- the bytes behind the first leave its cell alone
      have hbehind := ((m.write start b).get_writeBlock_or (start + 1) block
        (Address.ofWord start)).resolve_right (Address.not_inRow_succ hfits)
      rw [Word.add_ofNat_zero, read, hbehind, write, Buffer.get_put, if_pos rfl,
        List.getElem_cons_zero]
    | succ k =>
      rw [Word.add_ofNat_succ_left, List.getElem_cons_succ]
      exact ih (m.write start b) (by omega) (by omega)

/-- So each byte is in the cell as many steps past the first as it stands in
the block. -/
theorem get_writeBlock_past (m : Memory) {start : UInt16} {block : List UInt8}
    (hfits : block.length ≤ 4096) (k : Nat) (hk : k < block.length) :
    (m.writeBlock start block).cells.get (Address.past start k) = block[k] := by
  rw [← Address.ofWord_add_ofNat]
  exact m.read_writeBlock hfits hk

/-- Every other cell is left alone. -/
theorem get_writeBlock_of_ne_past (m : Memory) {start : UInt16} {block : List UInt8}
    {cell : Address} (h : ∀ k < block.length, cell ≠ Address.past start k) :
    (m.writeBlock start block).cells.get cell = m.cells.get cell := by
  refine (m.get_writeBlock_or start block cell).resolve_right ?_
  rintro ⟨k, hk, hrow⟩
  exact h k hk (hrow.trans (Address.ofWord_add_ofNat start k))

/-- A block that was written reads back. -/
theorem readBlock_writeBlock (m : Memory) (start : UInt16) {block : List UInt8}
    (hfits : block.length ≤ 4096) :
    (m.writeBlock start block).readBlock start block.length = block := by
  refine List.ext_getElem (length_readBlock ..) fun k _ hk => ?_
  rw [getElem_readBlock]
  exact m.read_writeBlock hfits hk

end Memory

/-- A register of a block, by its number. -/
theorem Registers.getElem_upTo (r : Registers) (x k : Digit) (hk : k.val < (r.upTo x).length) :
    (r.upTo x)[k.val] = r.v.get k := by
  simp only [upTo, List.getElem_take, Vector.getElem_toList]
  rfl

namespace Machine

variable {m n : Machine} {x : Digit}

/-- Where the index register is after a block has been moved: past the
block, or where it was. -/
def indexPast (m : Machine) (x : Digit) (advances : Bool) : Nat :=
  if advances then (m.index.toNat + x.val + 1) % 65536 else m.index.toNat

/-- **A machine whose registers up to one have been stored**: each is in its
own cell, and the other cells and all registers are as they were. -/
structure Stored (m : Machine) (x : Digit) (n : Machine) : Prop where
  cells : ∀ r ≤ x, n.memory.cells.get (Address.past m.index r.val) = m.v r
  others : ∀ cell, (∀ r ≤ x, cell ≠ Address.past m.index r.val) →
    n.memory.cells.get cell = m.memory.cells.get cell
  v : ∀ r, n.v r = m.v r
  index : n.index.toNat = m.indexPast x m.profile.storeAdvancesIndex

/-- **A machine whose registers up to one have been loaded**: each holds what
is in its own cell, and the higher registers and memory are as they were. -/
structure Loaded (m : Machine) (x : Digit) (n : Machine) : Prop where
  v : ∀ r ≤ x, n.v r = m.memory.cells.get (Address.past m.index r.val)
  others : ∀ r, x < r → n.v r = m.v r
  memory : n.memory = m.memory
  index : n.index.toNat = m.indexPast x m.profile.loadAdvancesIndex

/-! ## The two instructions -/

/-- Moving the index register past a block, or leaving it, from where
another machine has it. -/
theorem advanceIndex_eq_setIndex (h : n.index = m.index) (x : Digit) (advances : Bool) :
    n.advanceIndex x advances = n.setIndex (UInt16.ofNat (m.indexPast x advances)) := by
  cases advances with
  | false =>
    rw [indexPast, if_neg Bool.false_ne_true, UInt16.ofNat_toNat, ← h]
    rfl
  | true =>
    have hpast : n.index + (Digit.toWord x + 1) =
        UInt16.ofNat ((m.index.toNat + x.val + 1) % 65536) := by
      apply UInt16.toNat_inj.1
      rw [h, UInt16.toNat_add, UInt16.toNat_add, Digit.toNat_toWord, UInt16.toNat_one,
        UInt16.toNat_ofNat']
      omega
    rw [indexPast, if_pos rfl, ← hpast]
    rfl

theorem toNat_ofNat_indexPast (m : Machine) (x : Digit) (advances : Bool) :
    (UInt16.ofNat (m.indexPast x advances)).toNat = m.indexPast x advances := by
  have hindex := m.index.toNat_lt
  rw [UInt16.toNat_ofNat', indexPast]
  split <;> omega

theorem memory_next_setIndex (m : Machine) (index : UInt16) :
    (m.setIndex index).next.memory = m.memory := rfl

theorem v_next_setIndex (m : Machine) (index : UInt16) (r : Digit) :
    (m.setIndex index).next.v r = m.registers.v.get r := rfl

theorem index_next_setIndex (m : Machine) (index : UInt16) :
    (m.setIndex index).next.index = index := rfl

/-- **Storing a block** goes through wherever the index register points. -/
theorem exists_stored (m : Machine) (x : Digit) :
    ∃ n, m.execute (.storeBlock x) = .ok n ∧ m.Stored x n := by
  have hlength := m.registers.length_upTo x
  have hstore : m.storeBlock x = ({ m with
      memory := m.memory.writeBlock m.index (m.registers.upTo x) }.setIndex
        (UInt16.ofNat (m.indexPast x m.profile.storeAdvancesIndex))) :=
    advanceIndex_eq_setIndex rfl x _
  refine ⟨(m.storeBlock x).next, rfl, ?_⟩
  rw [hstore]
  constructor
  case cells =>
    intro r hr
    have hr : r.val ≤ x.val := hr
    have hk : r.val < (m.registers.upTo x).length := by omega
    have hcell : (m.memory.writeBlock m.index (m.registers.upTo x)).cells.get
        (Address.past m.index r.val) = (m.registers.upTo x)[r.val] :=
      m.memory.get_writeBlock_past (by omega) r.val hk
    rw [Registers.getElem_upTo] at hcell
    rw [memory_next_setIndex]
    exact hcell
  case others =>
    intro cell hcell
    rw [memory_next_setIndex]
    refine m.memory.get_writeBlock_of_ne_past fun k hk => ?_
    rw [hlength] at hk
    have hx : k < 16 := by omega
    exact hcell ⟨k, hx⟩ (Nat.le_of_lt_succ hk)
  case v =>
    intro r
    rw [v_next_setIndex]
    rfl
  case index => rw [index_next_setIndex, toNat_ofNat_indexPast]

/-- **Loading a block** goes through wherever the index register points. -/
theorem exists_loaded (m : Machine) (x : Digit) :
    ∃ n, m.execute (.loadBlock x) = .ok n ∧ m.Loaded x n := by
  have hindex (f : Digit → UInt8) :
      { m with registers := m.registers.replaceUpTo x f }.index = m.index := by
    rw [index, index, Registers.replaceUpTo]
  have hload : m.loadBlock x = ({ m with
      registers := m.registers.replaceUpTo x fun r =>
        m.memory.read (m.index + Digit.toWord r) }.setIndex
        (UInt16.ofNat (m.indexPast x m.profile.loadAdvancesIndex))) :=
    advanceIndex_eq_setIndex (hindex _) x _
  refine ⟨(m.loadBlock x).next, rfl, ?_⟩
  rw [hload]
  constructor
  case v =>
    intro r hr
    rw [v_next_setIndex, Registers.v_replaceUpTo, if_pos hr, Memory.read, Digit.toWord,
      Address.ofWord_add_ofNat]
  case others =>
    intro r hr
    rw [v_next_setIndex, Registers.v_replaceUpTo, if_neg (Fin.not_le.2 hr)]
    rfl
  case memory => rw [memory_next_setIndex]
  case index => rw [index_next_setIndex, toNat_ofNat_indexPast]

/-! ## One after the other -/

/-- **To store and to load a block undo each other.** Neither instruction
fails, whatever the index register holds; a store puts the registers up to
one into the cells from there on, modulo the size of memory, and a load
takes them from there, and the index register is past the block afterwards
exactly if the profile says so. If the same registers are loaded with the
index register where it was before a store and those cells as the store left
them, they hold what they held at the store, and the higher ones what they
held at the load. If they are stored with the index register where it was
before a load, memory is what it was. -/
theorem block_moves_inverse (m : Machine) (x : Digit) :
    (∃ n, m.execute (.storeBlock x) = .ok n ∧ m.Stored x n ∧
      ∀ l : Machine, l.index = m.index →
        (∀ r ≤ x, l.memory.cells.get (Address.past m.index r.val) =
          n.memory.cells.get (Address.past m.index r.val)) →
        ∃ k, l.execute (.loadBlock x) = .ok k ∧ l.Loaded x k ∧ ∀ r ≤ x, k.v r = m.v r) ∧
    ∃ n, m.execute (.loadBlock x) = .ok n ∧ m.Loaded x n ∧
      ∀ l : Machine, l.index = m.index → l.memory = n.memory → (∀ r ≤ x, l.v r = n.v r) →
        ∃ k, l.execute (.storeBlock x) = .ok k ∧ l.Stored x k ∧ k.memory = m.memory := by
  constructor
  · obtain ⟨n, hexecute, hstored⟩ := m.exists_stored x
    refine ⟨n, hexecute, hstored, fun l hindex hcells => ?_⟩
    obtain ⟨k, hload, hloaded⟩ := l.exists_loaded x
    refine ⟨k, hload, hloaded, fun r hr => ?_⟩
    calc k.v r = l.memory.cells.get (Address.past m.index r.val) := hindex ▸ hloaded.v r hr
      _ = n.memory.cells.get (Address.past m.index r.val) := hcells r hr
      _ = m.v r := hstored.cells r hr
  · obtain ⟨n, hexecute, hloaded⟩ := m.exists_loaded x
    refine ⟨n, hexecute, hloaded, fun l hindex hmemory hv => ?_⟩
    obtain ⟨k, hstore, hstored⟩ := l.exists_stored x
    refine ⟨k, hstore, hstored, ?_⟩
    have hkept : l.memory = m.memory := hmemory.trans hloaded.memory
    refine Memory.ext_get fun cell => ?_
    by_cases hcell : ∃ r ≤ x, cell = Address.past m.index r.val
    · -- a cell of the block gets back what was loaded from it
      obtain ⟨r, hr, rfl⟩ := hcell
      calc k.memory.cells.get (Address.past m.index r.val) = l.v r :=
            hindex ▸ hstored.cells r hr
        _ = n.v r := hv r hr
        _ = m.memory.cells.get (Address.past m.index r.val) := hloaded.v r hr
    · have hother := hstored.others cell fun r hr e => hcell ⟨r, hr, hindex ▸ e⟩
      rw [hother, hkept]

/-- A machine with its index register at the end of the words, so that a
block passes the end of memory and the index register begins anew. -/
def moverAtTheEnd : Machine :=
  { powerOn 0 Profile.vip with
    memory := Memory.blank.writeBlock 0x0FFE [0x0A, 0x0B, 0x0C, 0x0D, 0x0E]
    registers := {
      v := #v[0x10, 0x11, 0x12, 0x13, 0x14, 0, 0, 0, 0, 0, 0, 0, 0, 0, 0, 0]
      index := 0xFFFE
      pc := 0x0200
      delay := 0
      sound := 0 } }

/-- Four registers are stored, all of them overwritten and the four loaded
again; and four are loaded and stored again. The fifth cell and the fifth
register take no part. -/
theorem block_moves_inverse_moverAtTheEnd :
    let m := moverAtTheEnd
    let blanked (n : Machine) : Machine :=
      { n with registers := { n.registers with v := Buffer.blank, index := 0xFFFE } }
    (∃ n k, m.execute (.storeBlock 0x3) = .ok n ∧ n.index.toNat = 0x0002 ∧
      n.memory.cells.get (Address.past 0xFFFE 3) = 0x13 ∧
      n.memory.cells.get (Address.past 0xFFFE 4) = 0x0E ∧
      (blanked n).execute (.loadBlock 0x3) = .ok k ∧ k.v 0x3 = 0x13 ∧ k.v 0x4 = 0) ∧
    ∃ n k, m.execute (.loadBlock 0x3) = .ok n ∧ n.index.toNat = 0x0002 ∧ n.v 0x3 = 0x0D ∧
      ({ n with registers := { n.registers with index := 0xFFFE } } : Machine).execute
        (.storeBlock 0x3) = .ok k ∧ k.memory = m.memory := by
  intro m blanked
  obtain ⟨⟨n, hstore, hstored, hreload⟩, l, hload, hloaded, hrestore⟩ :=
    block_moves_inverse m 0x3
  have hindex : m.indexPast 0x3 m.profile.storeAdvancesIndex = 0x0002 ∧
      m.indexPast 0x3 m.profile.loadAdvancesIndex = 0x0002 := by decide
  have hregister : m.v 0x3 = 0x13 := by decide
  have hcell : m.memory.cells.get (Address.past 0xFFFE 3) = 0x0D ∧
      m.memory.cells.get (Address.past 0xFFFE 4) = 0x0E := by decide +kernel
  have hfifth : ∀ r : Digit, r ≤ 0x3 → Address.past 0xFFFE 4 ≠ Address.past 0xFFFE r.val := by
    decide
  obtain ⟨k, hk, hkloaded, hsame⟩ := hreload (blanked n) rfl fun r _ => rfl
  obtain ⟨j, hj, -, hmemory⟩ :=
    hrestore { l with registers := { l.registers with index := 0xFFFE } } rfl rfl fun r _ => rfl
  refine ⟨⟨n, k, hstore, hstored.index.trans hindex.1, ?_, ?_, hk, ?_, ?_⟩,
    l, j, hload, hloaded.index.trans hindex.2, ?_, hj, hmemory⟩
  · exact (hstored.cells 0x3 (by decide)).trans hregister
  · exact (hstored.others _ hfifth).trans hcell.2
  · exact (hsame 0x3 (by decide)).trans hregister
  · exact hkloaded.others 0x4 (by decide)
  · exact (hloaded.v 0x3 (by decide)).trans hcell.1

end Machine

end Chip8
