import Chip8.Instruction
import Chip8.Text
/-!
# Instructions as records

An instruction written as a record: the short name of its form and its
parts in decimal, each under the name that it has in the instruction
table.
-/

namespace Chip8

namespace Instruction

/-- The part that holds a twelve-bit target. -/
def targetField (target : Address) : String × String :=
  ("nnn", toString target.val)

/-- The part that holds the first register. -/
def firstField (x : Digit) : String × String :=
  ("x", toString x.val)

/-- The part that holds the second register. -/
def secondField (y : Digit) : String × String :=
  ("y", toString y.val)

/-- The part that holds a byte. -/
def byteField (byte : UInt8) : String × String :=
  ("nn", toString byte.toNat)

/-- The part that holds a count of rows. -/
def rowsField (rows : Digit) : String × String :=
  ("n", toString rows.val)

/-- The short name of an operation between two registers. -/
def arithmeticForm : Arithmetic → String
  | .copy => "LdReg"
  | .or => "Or"
  | .and => "And"
  | .xor => "Xor"
  | .add => "AddReg"
  | .subtract => "Sub"
  | .shiftRight => "Shr"
  | .subtractFrom => "Subn"
  | .shiftLeft => "Shl"

/-- The instruction as a record. -/
def record : Instruction → String
  | clearScreen => Record.text "Cls" []
  | returnFromCall => Record.text "Ret" []
  | jump target => Record.text "Jp" [targetField target]
  | call target => Record.text "Call" [targetField target]
  | skipIfByte x byte => Record.text "SeImm" [firstField x, byteField byte]
  | skipUnlessByte x byte => Record.text "SneImm" [firstField x, byteField byte]
  | skipIfEqual x y => Record.text "SeReg" [firstField x, secondField y]
  | skipUnlessEqual x y => Record.text "SneReg" [firstField x, secondField y]
  | setByte x byte => Record.text "LdImm" [firstField x, byteField byte]
  | addByte x byte => Record.text "AddImm" [firstField x, byteField byte]
  | arithmetic f x y => Record.text (arithmeticForm f) [firstField x, secondField y]
  | setIndex target => Record.text "LdI" [targetField target]
  | jumpOffset target => Record.text "JpV0" [targetField target]
  | random x mask => Record.text "Rnd" [firstField x, byteField mask]
  | draw x y rows => Record.text "Drw" [firstField x, secondField y, rowsField rows]
  | skipIfKey x => Record.text "Skp" [firstField x]
  | skipUnlessKey x => Record.text "Sknp" [firstField x]
  | getDelay x => Record.text "LdVxDt" [firstField x]
  | awaitKey x => Record.text "LdVxK" [firstField x]
  | setDelay x => Record.text "LdDtVx" [firstField x]
  | setSound x => Record.text "LdStVx" [firstField x]
  | addIndex x => Record.text "AddIVx" [firstField x]
  | pointGlyph x => Record.text "LdFVx" [firstField x]
  | storeDecimal x => Record.text "LdBVx" [firstField x]
  | storeBlock x => Record.text "LdMemVx" [firstField x]
  | loadBlock x => Record.text "LdVxMem" [firstField x]

end Instruction

end Chip8
