import Chip8.Profile
import Chip8.Word
/-!
# Arithmetic between two registers

The nine operations of the family 8XYN: each takes the bytes of two
registers and gives a wide result, whose lower byte goes into the first
register. Sums, differences and shifts also give a flag: the carry, the
absence of a borrow, or the bit that was shifted out.
-/

namespace Chip8

/-- The operations between two registers. -/
inductive Arithmetic
  | copy
  | or
  | and
  | xor
  | add
  | subtract
  | shiftRight
  | subtractFrom
  | shiftLeft
deriving DecidableEq, Repr, Inhabited

namespace Arithmetic

/-- The last digit of the instruction word. -/
def code : Arithmetic → Nat
  | copy => 0x0
  | or => 0x1
  | and => 0x2
  | xor => 0x3
  | add => 0x4
  | subtract => 0x5
  | shiftRight => 0x6
  | subtractFrom => 0x7
  | shiftLeft => 0xE

/-- The operation of a last digit. -/
def ofCode? : Nat → Option Arithmetic
  | 0x0 => some copy
  | 0x1 => some or
  | 0x2 => some and
  | 0x3 => some xor
  | 0x4 => some add
  | 0x5 => some subtract
  | 0x6 => some shiftRight
  | 0x7 => some subtractFrom
  | 0xE => some shiftLeft
  | _ => none

/-- The wide result on the bytes of the first and the second register, and
the flag of the operations that have one. -/
def apply (p : Profile) (f : Arithmetic) (a b : UInt8) : UInt16 × Option Bool :=
  let source := if p.shiftReadsSecond then b else a
  match f with
  | copy => (b.toUInt16, none)
  | or => ((a ||| b).toUInt16, none)
  | and => ((a &&& b).toUInt16, none)
  | xor => ((a ^^^ b).toUInt16, none)
  | add =>
    let sum := a.toUInt16 + b.toUInt16
    (sum, some (0xFF < sum))
  | subtract => (a.toUInt16 - b.toUInt16, some (b ≤ a))
  | subtractFrom => (b.toUInt16 - a.toUInt16, some (a ≤ b))
  | shiftRight => ((source >>> 1).toUInt16, some (source &&& 0x01 ≠ 0))
  | shiftLeft => (source.toUInt16 <<< 1, some (source &&& 0x80 ≠ 0))

theorem ofCode?_code (f : Arithmetic) : ofCode? f.code = some f := by
  cases f <;> rfl

/-- A digit is the code of the operation that it stands for. -/
theorem code_of_ofCode? {d : Nat} {f : Arithmetic} (h : ofCode? d = some f) : f.code = d := by
  unfold ofCode? at h
  split at h <;> simp_all <;> subst h <;> rfl

end Arithmetic

end Chip8
