import Chip8.Instruction
import Chip8.Profile
import Chip8.Registers
/-!
# What an instruction may write

Which of the byte registers, the memory cells and the index register an
instruction may write, read off its form before it runs. The operands name
the registers and count the cells, the index register says where the cells
begin, and the profile decides whether a block move goes on from there.
The other parts of the machine have one or two instructions each that
write them, and need no table.
-/

namespace Chip8

/-- A cell is one of `count` cells in a row, the first of which is named by
a word; the row goes on at the start of memory when it passes the end. -/
def Address.InRow (start : UInt16) (count : Nat) (cell : Address) : Prop :=
  ∃ k < count, cell = Address.ofWord (start + UInt16.ofNat k)

instance (start : UInt16) (count : Nat) (cell : Address) :
    Decidable (Address.InRow start count cell) :=
  inferInstanceAs (Decidable (∃ k < count, cell = Address.ofWord (start + UInt16.ofNat k)))

/-- A row is its first cell and the row of those behind it. -/
theorem Address.inRow_succ_iff {start : UInt16} {count : Nat} {cell : Address} :
    Address.InRow start (count + 1) cell ↔
      cell = Address.ofWord start ∨ Address.InRow (start + 1) count cell := by
  constructor
  · rintro ⟨_ | k, hk, hcell⟩
    · rw [Word.add_ofNat_zero] at hcell
      exact .inl hcell
    · rw [Word.add_ofNat_succ_left] at hcell
      exact .inr ⟨k, Nat.lt_of_succ_lt_succ hk, hcell⟩
  · rintro (hcell | ⟨k, hk, hcell⟩)
    · refine ⟨0, Nat.succ_pos count, ?_⟩
      rw [Word.add_ofNat_zero]
      exact hcell
    · refine ⟨k + 1, Nat.succ_lt_succ hk, ?_⟩
      rw [Word.add_ofNat_succ_left]
      exact hcell

/-- Whether an operation between two registers writes the flag as well. -/
def Arithmetic.writesFlag : Arithmetic → Bool
  | copy | or | and | xor => false
  | add | subtract | shiftRight | subtractFrom | shiftLeft => true

namespace Instruction

/-- Whether an instruction is one of the two that write the screen. -/
def writesScreen : Instruction → Bool
  | clearScreen | draw _ _ _ => true
  | _ => false

/-- An instruction may write a byte register: as its target, as one of the
registers of a block, or as the flag. -/
def WritesRegister (r : Digit) : Instruction → Prop
  | setByte x _ | addByte x _ | random x _ | getDelay x | awaitKey x => r = x
  | arithmetic f x _ => r = x ∨ (f.writesFlag = true ∧ r = Registers.flag)
  | draw _ _ _ => r = Registers.flag
  | loadBlock x => r ≤ x
  | _ => False

/-- An instruction may write the index register. -/
def WritesIndex (profile : Profile) : Instruction → Prop
  | setIndex _ | addIndex _ | pointGlyph _ => True
  | storeBlock _ => profile.storeAdvancesIndex = true
  | loadBlock _ => profile.loadAdvancesIndex = true
  | _ => False

/-- An instruction may write a memory cell, with the index register where it
is before the instruction. -/
def WritesCell (index : UInt16) (cell : Address) : Instruction → Prop
  | storeDecimal _ => Address.InRow index 3 cell
  | storeBlock x => Address.InRow index (x.val + 1) cell
  | _ => False

/-- The number of cells that an instruction writes from the index register
on. -/
def cellsWritten : Instruction → Nat
  | storeDecimal _ => 3
  | storeBlock x => x.val + 1
  | _ => 0

/-- The cells that an instruction writes are a row from the index register
on. -/
theorem writesCell_iff_inRow {index : UInt16} {cell : Address} {i : Instruction} :
    i.WritesCell index cell ↔ Address.InRow index i.cellsWritten cell := by
  have hnone : ¬Address.InRow index 0 cell := fun ⟨k, hk, _⟩ => Nat.not_lt_zero k hk
  cases i with
  | storeDecimal x => exact Iff.rfl
  | storeBlock x => exact Iff.rfl
  | _ => exact ⟨False.elim, hnone⟩

instance (index : UInt16) (cell : Address) (i : Instruction) :
    Decidable (i.WritesCell index cell) :=
  decidable_of_iff _ writesCell_iff_inRow.symm

end Instruction

end Chip8
