import Chip8.Instruction.Footprint
/-!
# What an instruction reads

The other side of the footprint: which memory cells an instruction looks
at, whether it goes by the index register, and whether it asks the
profile, read off its form before it runs. Storing a block reads no cell,
and a sprite of no rows is drawn from anywhere.
-/

namespace Chip8

/-- Whether an operation between two registers is a shift, on whose source
the profiles disagree. -/
def Arithmetic.isShift : Arithmetic → Bool
  | shiftRight | shiftLeft => true
  | copy | or | and | xor | add | subtract | subtractFrom => false

/-- Profiles give the same result wherever they agree on what a shift reads,
or both registers hold the same. -/
theorem Arithmetic.apply_congr (f : Arithmetic) {p q : Profile} {a b : UInt8}
    (h : f.isShift = true → p.shiftReadsSecond = q.shiftReadsSecond ∨ a = b) :
    f.apply p a b = f.apply q a b := by
  have hsource (hf : f.isShift = true) :
      (if p.shiftReadsSecond then b else a) = if q.shiftReadsSecond then b else a := by
    rcases h hf with hp | rfl
    · rw [hp]
    · rw [ite_self, ite_self]
  cases f with
  | shiftRight => simp only [apply, hsource rfl]
  | shiftLeft => simp only [apply, hsource rfl]
  | _ => rfl

namespace Instruction

/-- The number of cells that an instruction reads from the index register
on. -/
def cellsRead : Instruction → Nat
  | draw _ _ rows => rows.val
  | loadBlock x => x.val + 1
  | _ => 0

/-- An instruction reads a memory cell, with the index register where it is
before the instruction. -/
def ReadsCell (index : UInt16) (cell : Address) (i : Instruction) : Prop :=
  Address.InRow index i.cellsRead cell

instance (index : UInt16) (cell : Address) (i : Instruction) :
    Decidable (i.ReadsCell index cell) :=
  inferInstanceAs (Decidable (Address.InRow index i.cellsRead cell))

/-- Whether an instruction goes by the index register. -/
def readsIndex : Instruction → Bool
  | addIndex _ | storeDecimal _ | storeBlock _ | loadBlock _ => true
  | draw _ _ rows => 0 < rows.val
  | _ => false

/-- The two registers between which an instruction shifts, if it does. -/
def shifted? : Instruction → Option (Digit × Digit)
  | arithmetic f x y => if f.isShift then some (x, y) else none
  | _ => none

/-- Whether the index register may differ between a machine of one profile
and a machine of the other after both have executed an instruction. It does
if it did before, or if the profiles disagree on a block that was moved,
until the register is set to an address that the instruction names. -/
def leavesIndexApart (p q : Profile) (apart : Bool) : Instruction → Bool
  | setIndex _ | pointGlyph _ => false
  | storeBlock _ => apart || p.storeAdvancesIndex != q.storeAdvancesIndex
  | loadBlock _ => apart || p.loadAdvancesIndex != q.loadAdvancesIndex
  | _ => apart

/-- With one profile the index register stays as it is in both. -/
theorem leavesIndexApart_self (p : Profile) (i : Instruction) :
    i.leavesIndexApart p p false = false := by
  cases i with
  | storeBlock x => exact bne_self_eq_false _
  | loadBlock x => exact bne_self_eq_false _
  | _ => rfl

end Instruction

end Chip8
