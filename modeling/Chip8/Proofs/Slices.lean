import Chip8.Proofs.Cells
/-!
# Slices of memory

A slice is cut short at the end of memory, and within that it is what the
cells hold one after the other. Its end is computed in a word of 64 bits
before it is cut: a slice that was asked to end inside that word comes out
(`slice_cut_short`), and one that was asked to end beyond it has no result,
although the bytes to cut it down to are there (`slice_past_word_lost`).
-/

namespace Chip8

open Guarded

namespace Memory

variable {addr : UInt16} {count : UInt64}

/-! ## The bytes of a slice -/

/-- A row of cells goes by the lower twelve bits of where it begins. -/
theorem read_ofWord_add (m : Memory) (addr : UInt16) (k : Nat) :
    m.read (Address.toWord (Address.ofWord addr) + UInt16.ofNat k) =
      m.read (addr + UInt16.ofNat k) := by
  apply m.read_congr
  rw [Address.ofWord_add_ofNat, Address.ofWord_add_ofNat, Fin.ext_iff, Address.val_past,
    Address.val_past, Address.toNat_toWord, Address.val_ofWord]
  omega

/-- A slice whose end fits into its word, as a block. -/
theorem slice?_of_lt (m : Memory) (h : addr.toNat % 4096 + count.toNat < UInt64.size) :
    m.slice? addr count =
      some (m.readBlock (Address.toWord (Address.ofWord addr))
        (min count.toNat (4096 - addr.toNat % 4096))) :=
  if_pos h

theorem slice?_of_le (m : Memory) (h : UInt64.size ≤ addr.toNat % 4096 + count.toNat) :
    m.slice? addr count = none :=
  if_neg (Nat.not_lt.2 h)

/-! ## The range of cells -/

/-- A row of cells that does not pass the end of memory is a range. -/
theorem slice?_cells (m : Memory) (start : Address) {count : Nat}
    (h : start.val + count ≤ 4096) :
    m.cells.slice? start.val (start.val + count) =
      some (m.readBlock (Address.toWord start) count) := by
  rw [Buffer.slice?, if_pos ⟨Nat.le_add_right _ _, h⟩, Option.some.injEq]
  apply List.ext_getElem
  · simp only [List.length_drop, List.length_take, Vector.length_toList, length_readBlock]
    omega
  · intro k _ hk
    have hlength := m.length_readBlock (Address.toWord start) count
    have hcell : Address.ofWord (Address.toWord start + UInt16.ofNat k) =
        ⟨start.val + k, by omega⟩ := by
      rw [Address.ofWord_add_ofNat, Fin.ext_iff, Address.val_past, Address.toNat_toWord]
      exact Nat.mod_eq_of_lt (by omega)
    rw [getElem_readBlock, read, hcell, Buffer.get_eq_getElem]
    simp only [List.getElem_drop, List.getElem_take, Vector.getElem_toList]

/-- **The range of a slice never runs backwards and never leaves memory**:
nothing can fail but the sum that its end is. -/
theorem slice?_checked (m : Memory) (addr : UInt16) (count : UInt64) :
    Guarded.slice? m.cells addr count = m.slice? addr count := by
  rw [Guarded.slice?, toNat_and_mask, Address.val_ofWord]
  by_cases h : addr.toNat % 4096 + count.toNat < UInt64.size
  · have hstop : min (addr.toNat % 4096 + count.toNat) size =
        addr.toNat % 4096 + min count.toNat (4096 - addr.toNat % 4096) := by
      rw [size]
      omega
    have hinside : addr.toNat % 4096 + min count.toNat (4096 - addr.toNat % 4096) ≤ 4096 := by
      omega
    rw [fit?_of_lt h, Option.bind_eq_bind, Option.bind_some, hstop, m.slice?_of_lt h]
    exact m.slice?_cells (Address.ofWord addr) hinside
  · rw [fit?_eq_none_iff.2 (Nat.not_lt.1 h), m.slice?_of_le (Nat.not_lt.1 h)]
    rfl

end Memory

namespace Machine

/-! ## What comes out -/

/-- **A slice is cut short at the end of memory and is otherwise what the
cells hold.** If the end that is asked for fits into a word of 64 bits, the
slice comes out without any check failing: it has as many bytes as are asked
for, or as many as there are up to the end of memory, and they are the bytes
that the words from the address on read, none of which passes the last word.
If the end does not fit, there is no slice. -/
theorem slice_cut_short (m : Machine) (addr : UInt16) (count : UInt64) :
    if addr.toNat % 4096 + count.toNat < UInt64.size then
      ∃ bytes, m.memory.slice? addr count = some bytes ∧
        Guarded.slice? m.memory.cells addr count = some bytes ∧
        bytes.length = min count.toNat (4096 - addr.toNat % 4096) ∧
        ∀ k (hk : k < bytes.length),
          addr.toNat + k < UInt16.size ∧ bytes[k] = m.memory.read (addr + UInt16.ofNat k)
    else m.memory.slice? addr count = none := by
  split
  case isFalse h => exact m.memory.slice?_of_le (Nat.not_lt.1 h)
  case isTrue h =>
    have hslice := m.memory.slice?_of_lt h
    refine ⟨_, hslice, (m.memory.slice?_checked addr count).trans hslice,
      Memory.length_readBlock .., fun k hk => ⟨?_, ?_⟩⟩
    · -- a row that ends with memory ends before the words do
      have haddr := addr.toNat_lt
      rw [Memory.length_readBlock] at hk
      rw [UInt16.size]
      omega
    · rw [Memory.getElem_readBlock, Memory.read_ofWord_add]

/-- A machine whose last two cells hold one and two. -/
def countedToTheEnd : Machine :=
  { powerOn 0 Profile.standard with memory := Memory.blank.writeBlock 0x0FFE [1, 2] }

/-- Four bytes are asked for where there are two, by a word whose upper
digit does not count. -/
theorem slice_cut_short_countedToTheEnd :
    UInt16.toNat 0xFFFE % 4096 + UInt64.toNat 4 < UInt64.size ∧
      ∃ bytes, countedToTheEnd.memory.slice? 0xFFFE 4 = some bytes ∧ bytes.length = 2 ∧
        bytes[0]? = some 1 ∧ bytes[1]? = some 2 := by
  have hfits : UInt16.toNat 0xFFFE % 4096 + UInt64.toNat 4 < UInt64.size := by decide
  have hcut := slice_cut_short countedToTheEnd 0xFFFE 4
  rw [if_pos hfits] at hcut
  obtain ⟨bytes, hslice, -, hlength, hread⟩ := hcut
  have htwo : bytes.length = 2 := hlength.trans (by decide)
  have hone : countedToTheEnd.memory.read (0xFFFE + UInt16.ofNat 0) = 1 := by
    simp only [countedToTheEnd, Memory.writeBlock, Memory.read_write]
    rw [if_neg (by decide), if_pos (by decide)]
  have hnext : countedToTheEnd.memory.read (0xFFFE + UInt16.ofNat 1) = 2 := by
    simp only [countedToTheEnd, Memory.writeBlock, Memory.read_write]
    rw [if_pos (by decide)]
  have hfirst : 0 < bytes.length := by omega
  have hsecond : 1 < bytes.length := by omega
  refine ⟨hfits, bytes, hslice, htwo, ?_, ?_⟩
  · rw [List.getElem?_eq_getElem hfirst, (hread 0 hfirst).2, hone]
  · rw [List.getElem?_eq_getElem hsecond, (hread 1 hsecond).2, hnext]

/-- **A slice that is asked to end beyond the last word of 64 bits is
lost**, where one that was cut short first would have the cells up to the
end of memory: here the last cell. -/
theorem slice_past_word_lost :
    ¬∀ (m : Machine) (addr : UInt16) (count : UInt64), ∃ bytes,
      Guarded.slice? m.memory.cells addr count = some bytes ∧
        bytes.length = min count.toNat (4096 - addr.toNat % 4096) ∧
        ∀ k (hk : k < bytes.length), bytes[k] = m.memory.read (addr + UInt16.ofNat k) := by
  intro h
  obtain ⟨bytes, hslice, -⟩ := h (powerOn 1 Profile.standard) 0x0FFF 0xFFFFFFFFFFFFFFFF
  rw [Memory.slice?_checked, Memory.slice?_of_le _ (by decide)] at hslice
  cases hslice

end Machine

end Chip8
