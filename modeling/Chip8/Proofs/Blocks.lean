import Chip8.Proofs.Cells
/-!
# Blocks of memory in checked cells

The font at power-on, a program that is loaded, and the registers that are
stored and loaded go through memory one cell after the other. Each loop is
proved by induction on the cells done so far, and each gives the block that
the machine writes or reads at once.
-/

namespace Chip8

open Guarded

/-- A loop whose steps all go through, by the state before each of them. -/
theorem foldlM_range_eq {σ : Type} {step : σ → Nat → Option σ} {s : σ} {count : Nat}
    (state : Nat → σ) (h0 : state 0 = s)
    (h : ∀ k < count, step (state k) k = some (state (k + 1))) :
    (List.range count).foldlM step s = some (state count) := by
  induction count with
  | zero => exact congrArg some h0.symm
  | succ count ih =>
    have hbefore := ih fun k hk => h k (Nat.lt_succ_of_lt hk)
    rw [List.range_succ, List.foldlM_append, hbefore, Option.bind_eq_bind, Option.bind_some,
      List.foldlM_cons, h count (Nat.lt_succ_self count)]
    rfl

/-! ## What a block leaves in memory -/

namespace Memory

/-- The cells after a block that ends before memory does. -/
theorem get_writeBlock (m : Memory) {addr : UInt16} {block : List UInt8}
    (h : addr.toNat + block.length ≤ 4096) (i : Fin 4096) :
    (m.writeBlock addr block).cells.get i =
      if addr.toNat ≤ i.val then block.getD (i.val - addr.toNat) (m.cells.get i)
      else m.cells.get i := by
  -- the bytes that are left lie one cell further on; the bound keeps the
  -- cells of a block apart, as one that passes the end begins anew below
  induction block generalizing m addr with
  | nil => simp [writeBlock]
  | cons b bs ih =>
    rw [List.length_cons] at h
    have hnext : (addr + 1).toNat = addr.toNat + 1 :=
      (UInt16.toNat_add addr 1).trans (Nat.mod_eq_of_lt (show addr.toNat + 1 < 65536 by omega))
    have hcell : Address.ofWord addr = i ↔ addr.toNat = i.val := by
      rw [Fin.ext_iff, Address.val_ofWord, Nat.mod_eq_of_lt (by omega)]
    have hwrite : (m.write addr b).cells.get i =
        if addr.toNat = i.val then b else m.cells.get i := by
      simp only [write, Buffer.get_put, hcell]
    rw [writeBlock, ih _ (by omega), hnext, hwrite]
    rcases Nat.lt_trichotomy i.val addr.toNat with hi | hi | hi
    · rw [if_neg (by omega), if_neg (by omega), if_neg (by omega)]
    · rw [if_neg (by omega), if_pos (by omega), if_pos (by omega), hi, Nat.sub_self]
      rfl
    · have hsub : i.val - addr.toNat = i.val - (addr.toNat + 1) + 1 := by omega
      rw [if_pos (by omega), if_neg (by omega), if_pos (by omega), hsub, List.getD_cons_succ]

end Memory

/-! ## Blocks that are loaded -/

namespace Memory

variable {addr : UInt16} {block : List UInt8}

/-- A block that ends with memory, or before, is loaded. -/
theorem load_of_le (m : Memory) (h : addr.toNat % 4096 + block.length ≤ 4096) :
    m.load addr block = .ok (UInt16.ofNat (addr.toNat % 4096 + block.length),
      m.writeBlock (Address.toWord (Address.ofWord addr)) block) := by
  have hroom : block.length ≤ room addr := by
    rw [room_eq]
    omega
  exact if_pos hroom

/-- A block that passes the end of memory is refused. -/
theorem load_of_lt (m : Memory) (h : 4096 < addr.toNat % 4096 + block.length) :
    m.load addr block = .error (.load block.length (4096 - addr.toNat % 4096)) := by
  have hroom : ¬block.length ≤ room addr := by
    rw [room_eq]
    omega
  exact if_neg hroom

/-- **A block that fits is copied into a range inside memory**, as long as
the block itself, and one that does not fit leaves the cells alone. -/
theorem load?_checked (m : Memory) (addr : UInt16) (block : List UInt8) :
    Guarded.load? m.cells addr block = some (match m.load addr block with
      | .ok (stop, n) => (.ok stop, n.cells)
      | .error f => (.error f, m.cells)) := by
  have hcapacity : sub? size (addr.toNat % 4096) = some (4096 - addr.toNat % 4096) :=
    sub?_of_le (Nat.le_of_lt (Nat.mod_lt _ (by decide)))
  rw [Guarded.load?, toNat_and_mask, Address.val_ofWord, hcapacity, Option.bind_eq_bind,
    Option.bind_some]
  by_cases h : addr.toNat % 4096 + block.length ≤ 4096
  · have hstart : (Address.toWord (Address.ofWord addr)).toNat = addr.toNat % 4096 :=
      Address.toNat_toWord (Address.ofWord addr)
    have hcopy : copy? m.cells (addr.toNat % 4096) (addr.toNat % 4096 + block.length) block =
        some (m.writeBlock (Address.toWord (Address.ofWord addr)) block).cells := by
      rw [copy?, if_pos (by omega), Option.some.injEq]
      apply Buffer.ext_get
      intro i
      rw [get_writeBlock m (by omega), hstart, Buffer.get_eq_getElem, Vector.getElem_ofFn]
    rw [if_neg (by omega), m.load_of_le h, fit?_of_le h, Option.bind_eq_bind, Option.bind_some,
      hcopy]
    rfl
  · rw [if_pos (by omega), m.load_of_lt (Nat.not_le.1 h)]

end Memory

/-- A board loads what its machine loads. -/
@[simp] theorem Machine.load?_board (m : Machine) (program : List UInt8) :
    m.board.load? program =
      some ((m.loadProgram program).map fun loaded => (loaded.1, loaded.2.board)) := by
  have hcells : m.board.memory = m.memory.cells := rfl
  rw [Board.load?, hcells, Memory.load?_checked, Machine.loadProgram, Option.bind_eq_bind,
    Option.bind_some]
  cases m.memory.load Registers.programStart program <;> rfl

/-! ## The font -/

/-- The rows of a glyph, from the one at `row` on. -/
theorem writeGlyph?_eq (m : Memory) {addr : UInt16} {row : Nat} {lines : List UInt8}
    (h : addr.toNat + row + lines.length ≤ 65536) :
    writeGlyph? m.cells addr row lines =
      some (m.writeBlock (addr + UInt16.ofNat row) lines).cells := by
  induction lines generalizing m row with
  | nil => rfl
  | cons line lines ih =>
    rw [List.length_cons] at h
    have hplace : word? (addr.toNat + row) = some (addr + UInt16.ofNat row) := by
      rw [word?_of_lt (by omega), UInt16.ofNat_add, UInt16.ofNat_toNat]
    have hput : m.cells.put? ((addr + UInt16.ofNat row) &&& Memory.mask).toNat line =
        some (m.write (addr + UInt16.ofNat row) line).cells := by
      rw [toNat_and_mask]
      exact Buffer.put?_val m.cells _ line
    rw [writeGlyph?, hplace, Option.bind_eq_bind, Option.bind_some, hput, Option.bind_eq_bind,
      Option.bind_some, ih _ (by omega), Word.add_ofNat_succ, Memory.writeBlock]

theorem writeGlyphs?_eq (m : Memory) {addr : UInt16} {glyphs : List (List UInt8)}
    (hg : ∀ glyph ∈ glyphs, glyph.length = 5) (h : addr.toNat + 5 * glyphs.length < 65536) :
    writeGlyphs? m.cells addr glyphs = some (m.writeBlock addr glyphs.flatten).cells := by
  induction glyphs generalizing m addr with
  | nil => rfl
  | cons glyph glyphs ih =>
    rw [List.length_cons] at h
    have hlen := hg glyph List.mem_cons_self
    have hglyph : writeGlyph? m.cells addr 0 glyph = some (m.writeBlock addr glyph).cells := by
      rw [writeGlyph?_eq m (by omega), Word.add_ofNat_zero]
    have hnext : word? (addr.toNat + Font.height) = some (addr + UInt16.ofNat 5) := by
      rw [Font.height, word?_of_lt (by omega), UInt16.ofNat_add, UInt16.ofNat_toNat]
    have hnat : (addr + UInt16.ofNat 5).toNat = addr.toNat + 5 :=
      (UInt16.toNat_add addr _).trans (Nat.mod_eq_of_lt (show addr.toNat + 5 < 65536 by omega))
    rw [writeGlyphs?, hglyph, Option.bind_eq_bind, Option.bind_some, hnext, Option.bind_eq_bind,
      Option.bind_some, ih _ (fun g hm => hg g (List.mem_cons_of_mem _ hm)) (by omega),
      List.flatten_cons, Memory.writeBlock_append, hlen]

/-- **The font goes into low memory** without leaving it. -/
@[simp] theorem writeGlyphs?_font :
    writeGlyphs? Buffer.blank Font.start Font.glyphs.toList =
      some (Memory.blank.writeBlock Font.start Font.image).cells :=
  writeGlyphs?_eq Memory.blank (by decide) (by decide)

/-! ## Registers stored and loaded -/

namespace Machine

variable (m : Machine)

theorem advanceIndex?_board (x : Digit) (advances : Bool) :
    m.board.advanceIndex? (Digit.toByte x) advances = some (m.advanceIndex x advances).board := by
  have hcount : word? ((Digit.toByte x).toNat + 1) = some (Digit.toWord x + 1) := by
    rw [Digit.toNat_toByte, word?_of_lt (by omega), UInt16.ofNat_add]
    rfl
  rw [Board.advanceIndex?, advanceIndex, hcount]
  cases advances <;> rfl

/-- The machine with so many registers stored. -/
def stored (k : Nat) : Machine :=
  { m with memory := m.memory.writeBlock m.index (m.registers.v.toList.take k) }

/-- The machine with other byte registers. -/
def withV (v : Buffer UInt8 16) : Machine :=
  { m with registers := { m.registers with v := v } }

/-- The registers with so many of them loaded. -/
def loadedV (k : Nat) : Buffer UInt8 16 :=
  Vector.ofFn fun r : Digit =>
    if r.val < k then m.memory.read (m.index + Digit.toWord r) else m.v r

theorem get_loadedV (k : Nat) (r : Digit) :
    (m.loadedV k).get r =
      if r.val < k then m.memory.read (m.index + Digit.toWord r) else m.v r := by
  simp only [loadedV, Buffer.get_eq_getElem, Vector.getElem_ofFn]

theorem loadedV_zero : m.loadedV 0 = m.registers.v := by
  apply Buffer.ext_get
  intro r
  exact (m.get_loadedV 0 r).trans (if_neg (Nat.not_lt_zero _))

theorem put_loadedV {k : Nat} (h : k < 16) :
    (m.loadedV k).put ⟨k, h⟩ (m.memory.read (m.index + UInt16.ofNat k)) = m.loadedV (k + 1) := by
  apply Buffer.ext_get
  intro r
  rw [Buffer.get_put, get_loadedV, get_loadedV]
  simp only [Fin.ext_iff]
  -- a register loaded before, the one just loaded, or one still to come
  rcases Nat.lt_trichotomy r.val k with hr | hr | hr
  · rw [if_neg (by omega), if_pos hr, if_pos (by omega)]
  · rw [if_pos hr.symm, if_pos (by omega), Digit.toWord, hr]
  · rw [if_neg (by omega), if_neg (by omega), if_neg (by omega)]

theorem storeRegister?_stored {k : Nat} (h : k < 16) :
    (m.stored k).board.storeRegister? k = some (m.stored (k + 1)).board := by
  have htake : m.registers.v.toList.take (k + 1) =
      m.registers.v.toList.take k ++ [m.v ⟨k, h⟩] := by
    have hget : m.registers.v.toList[k]? = some (m.v ⟨k, h⟩) :=
      Vector.getElem?_toList.trans (Vector.getElem?_eq_getElem h)
    rw [List.take_add_one, hget]
    rfl
  have hlen : (m.registers.v.toList.take k).length = k := by
    rw [List.length_take, Vector.length_toList]
    omega
  rw [Board.storeRegister?, ← Digit.toByte_mk h, register?_board, Option.bind_eq_bind,
    Option.bind_some, write?_board]
  simp only [stored, htake, Memory.writeBlock_append, hlen]
  rfl

theorem loadRegister?_withV (v : Buffer UInt8 16) {k : Nat} (h : k < 16) :
    (m.withV v).board.loadRegister? k =
      some (m.withV (v.put ⟨k, h⟩ (m.memory.read (m.index + UInt16.ofNat k)))).board := by
  rw [Board.loadRegister?, read?_board, Option.bind_eq_bind, Option.bind_some,
    ← Digit.toByte_mk h, setRegister?_board]
  rfl

/-- **Storing a block of registers** stays inside the registers, and every
address is a cell. -/
@[simp] theorem storeBlock?_board (x : Digit) :
    m.board.storeBlock? (Digit.toByte x) = some (m.storeBlock x).board := by
  have hloop : (List.range (x.val + 1)).foldlM Board.storeRegister? m.board =
      some (m.stored (x.val + 1)).board :=
    foldlM_range_eq (fun k => (m.stored k).board) rfl fun k hk =>
      m.storeRegister?_stored (by omega)
  rw [Board.storeBlock?, Digit.toNat_toByte, hloop, Option.bind_eq_bind, Option.bind_some]
  exact advanceIndex?_board (m.stored (x.val + 1)) x m.profile.storeAdvancesIndex

/-- **Loading a block of registers** stays inside them too. -/
@[simp] theorem loadBlock?_board (x : Digit) :
    m.board.loadBlock? (Digit.toByte x) = some (m.loadBlock x).board := by
  have hzero : m.withV (m.loadedV 0) = m := by
    rw [loadedV_zero]
    rfl
  have hloop : (List.range (x.val + 1)).foldlM Board.loadRegister? m.board =
      some (m.withV (m.loadedV (x.val + 1))).board := by
    refine foldlM_range_eq (fun k => (m.withV (m.loadedV k)).board) (by rw [hzero]) ?_
    intro k hk
    have h : k < 16 := by omega
    rw [loadRegister?_withV m _ h, put_loadedV m h]
  have hloaded : m.loadedV (x.val + 1) = (m.registers.replaceUpTo x fun r =>
      m.memory.read (m.index + Digit.toWord r)).v := by
    simp only [loadedV, Registers.replaceUpTo, Nat.lt_succ_iff, Fin.le_def]
    rfl
  rw [Board.loadBlock?, Digit.toNat_toByte, hloop, Option.bind_eq_bind, Option.bind_some,
    hloaded]
  exact advanceIndex?_board _ x m.profile.loadAdvancesIndex

/-- The three digits of a byte go into three cells. -/
@[simp] theorem storeDecimal?_board (x : Digit) :
    m.board.storeDecimal? (Digit.toByte x) =
      some { m with
        memory := m.memory.writeBlock m.index (decimalDigits (m.v x)) }.board := by
  have hindex : m.board.index = m.index := rfl
  have hthird : m.index + 2 = m.index + 1 + 1 := by
    rw [UInt16.add_assoc]
    rfl
  simp only [Board.storeDecimal?, register?_board, Option.bind_eq_bind, Option.bind_some, hindex,
    write?_board]
  have hnext : ∀ memory : Memory, { m with memory := memory }.board.index = m.index :=
    fun memory => rfl
  simp only [hnext, hthird]
  rfl

end Machine

end Chip8
