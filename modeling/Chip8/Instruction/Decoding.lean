import Chip8.Fault
import Chip8.Instruction
/-!
# Decoding with its error

The decoder as a function that gives the word back when the instruction
table has no form for it. Beside it stand the digits of a word that a form
does not look at: words that differ in nothing else are words of the same
instruction.
-/

namespace Chip8

/-- A word that is no instruction. -/
structure Unsupported where
  /-- The word. -/
  word : UInt16
deriving DecidableEq, Repr

/-- The sentence that tells which word it is. -/
def Unsupported.message (u : Unsupported) : String :=
  "unsupported instruction " ++ Hex.upper 4 u.word.toNat

namespace Word

/-- The values of the four places of a word, the first place first. -/
def places : List Nat := [4096, 256, 16, 1]

/-- Two words have the same digits, but for those at some places. -/
def AgreeOutside (ignored : List Nat) (w w' : UInt16) : Prop :=
  ∀ place ∈ places, place ∉ ignored → digit w place = digit w' place

instance (ignored : List Nat) (w w' : UInt16) : Decidable (AgreeOutside ignored w w') :=
  inferInstanceAs (Decidable (∀ place ∈ places, place ∉ ignored → digit w place = digit w' place))

end Word

namespace Instruction

/-- The instruction that a word stands for, or the word as an error. -/
def decode (w : UInt16) : Except Unsupported Instruction :=
  match decode? w with
  | some i => .ok i
  | none => .error ⟨w⟩

/-- The places of the digits that the form of an instruction does not look
at: the second digit of `00E0` and `00EE`, and the last one of `5XY0` and
`9XY0`. -/
def ignoredPlaces : Instruction → List Nat
  | clearScreen | returnFromCall => [256]
  | skipIfEqual _ _ | skipUnlessEqual _ _ => [1]
  | _ => []

variable {w : UInt16} {i : Instruction}

theorem decode_eq_ok_iff : decode w = .ok i ↔ decode? w = some i := by
  unfold decode
  cases decode? w <;> simp

theorem decode_eq_error_iff {u : Unsupported} :
    decode w = .error u ↔ decode? w = none ∧ u = ⟨w⟩ := by
  unfold decode
  cases decode? w <;> simp [eq_comm]

end Instruction

end Chip8
