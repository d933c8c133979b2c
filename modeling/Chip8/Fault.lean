import Chip8.Text
/-!
# Faults

What stops a run, or refuses a program: a word that is no instruction, a
call too deep, a return without a call, and an image that does not fit.
None of them goes away by itself, since all come from the loaded program.
-/

namespace Chip8

/-- The causes for which the machine stops or refuses to load. -/
inductive Fault
  /-- The word at the program counter is no instruction. -/
  | decode (pc word : UInt16)
  /-- A call with every level of the call stack in use. -/
  | stackOverflow (pc : UInt16)
  /-- A return with no call to return from. -/
  | stackUnderflow (pc : UInt16)
  /-- An image of `size` bytes for a place with room for `capacity`. -/
  | load (size capacity : Nat)
deriving DecidableEq, Repr, Inhabited

namespace Fault

/-- The address of the instruction at fault, if there is one. -/
def pc? : Fault → Option UInt16
  | decode pc _ | stackOverflow pc | stackUnderflow pc => some pc
  | load _ _ => none

/-- The sentence that tells a user what happened. -/
def message : Fault → String
  | decode pc word =>
    "unsupported instruction " ++ Hex.upper 4 word.toNat ++ " at " ++ Hex.literal 3 pc.toNat
  | stackOverflow pc => "call stack overflow at " ++ Hex.literal 3 pc.toNat
  | stackUnderflow pc => "call stack underflow at " ++ Hex.literal 3 pc.toNat
  | load size capacity =>
    "program of " ++ toString size ++ " bytes exceeds " ++ toString capacity ++ " bytes of memory"

/-- The name of the kind of a fault. -/
def name : Fault → String
  | decode _ _ => "Decode"
  | stackOverflow _ => "StackOverflow"
  | stackUnderflow _ => "StackUnderflow"
  | load _ _ => "Load"

/-- What is known of a fault: numbers, each by its label. -/
def numbers : Fault → List (String × Nat)
  | decode pc word => [("pc", pc.toNat), ("word", word.toNat)]
  | stackOverflow pc | stackUnderflow pc => [("pc", pc.toNat)]
  | load size capacity => [("len", size), ("capacity", capacity)]

/-- The fault as a record, with its numbers in decimal. No two faults have
the same record (`record_inj`). -/
def record (f : Fault) : String :=
  Record.text f.name (f.numbers.map fun part => (part.1, toString part.2))

/-- Outcomes that may be faults can be compared. -/
instance {α : Type} [DecidableEq α] : DecidableEq (Except Fault α)
  | .ok a, .ok b => decidable_of_iff (a = b) (by rw [Except.ok.injEq])
  | .error f, .error g => decidable_of_iff (f = g) (by rw [Except.error.injEq])
  | .ok _, .error _ => isFalse nofun
  | .error _, .ok _ => isFalse nofun

end Fault

end Chip8
