import Chip8.Buffer
import Chip8.Word
/-!
# Registers

Sixteen byte registers, of which the last doubles as the flag of the
arithmetic and drawing instructions, the index register, the program
counter and the two timers.
-/

namespace Chip8

/-- The registers and the timers. -/
structure Registers where
  /-- The byte registers. -/
  v : Buffer UInt8 16
  /-- The index register; its lower twelve bits address memory. -/
  index : UInt16
  /-- The program counter; its lower twelve bits address memory. -/
  pc : UInt16
  /-- The delay timer. -/
  delay : UInt8
  /-- The sound timer. -/
  sound : UInt8
deriving DecidableEq

namespace Registers

/-- The number of byte registers. -/
def count : Nat := 16

/-- The register that holds carry, borrow and collision. -/
def flag : Digit := Fin.last 15

/-- Where programs begin. -/
def programStart : UInt16 := 0x200

/-- Everything zero, and the program counter at the start of the program. -/
def initial : Registers := ⟨Buffer.blank, 0, programStart, 0, 0⟩

/-- The registers with a byte put into one of them. -/
def set (r : Registers) (x : Digit) (b : UInt8) : Registers :=
  { r with v := r.v.put x b }

/-- The registers with the lower byte of a wide result put into one. -/
def setWide (r : Registers) (x : Digit) (w : UInt16) : Registers :=
  r.set x (Word.lowByte w)

/-- The registers with the flag set to one or zero. -/
def setFlag (r : Registers) (on : Bool) : Registers :=
  r.set flag (if on then 1 else 0)

/-- The registers up to `x`, lowest first. -/
def upTo (r : Registers) (x : Digit) : List UInt8 :=
  r.v.toList.take (x.val + 1)

/-- The registers with those up to `x` replaced. -/
def replaceUpTo (r : Registers) (x : Digit) (f : Digit → UInt8) : Registers :=
  { r with v := Vector.ofFn fun k => if k ≤ x then f k else r.v.get k }

/-- A register holds the byte last put into it. -/
theorem v_set (r : Registers) (x k : Digit) (b : UInt8) :
    (r.set x b).v.get k = if x = k then b else r.v.get k := by
  simp only [set, Buffer.get_put]

theorem v_replaceUpTo (r : Registers) (x k : Digit) (f : Digit → UInt8) :
    (r.replaceUpTo x f).v.get k = if k ≤ x then f k else r.v.get k := by
  simp [replaceUpTo, Buffer.get_eq_getElem]

@[simp] theorem length_upTo (r : Registers) (x : Digit) : (r.upTo x).length = x.val + 1 := by
  simp only [upTo, List.length_take, Vector.length_toList]
  omega

end Registers

end Chip8
