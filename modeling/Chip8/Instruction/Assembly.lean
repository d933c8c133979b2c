import Chip8.Text
import Chip8.Word
/-!
# Assembly text

An assembly instruction is a name, then the operands with commas between
them. An operand is a register, a number, or one of the fixed names of the
index register, the timers, the keypad and the places that the index
register points at. `Assembly.ofText?` reads the text back.
-/

namespace Chip8

/-- What an assembly instruction is applied to. -/
inductive Operand
  /-- A byte register. -/
  | register (x : Digit)
  /-- A number. -/
  | number (n : Nat)
  /-- The index register. -/
  | index
  /-- The memory that the index register points at. -/
  | block
  /-- The delay timer. -/
  | delay
  /-- The sound timer. -/
  | sound
  /-- A key. -/
  | key
  /-- The glyph of a digit. -/
  | glyph
  /-- The decimal digits of a byte. -/
  | decimal
deriving DecidableEq, Repr

/-- A name and the operands that it is applied to. -/
structure Assembly where
  /-- The name of the operation. -/
  name : String
  /-- The operands, the changed one first. -/
  operands : List Operand
deriving DecidableEq, Repr

namespace Operand

/-- The text of an operand. -/
def text : Operand → String
  | register x => "V" ++ Hex.upper 1 x.val
  | number n => Hex.literal 1 n
  | index => "I"
  | block => "[I]"
  | delay => "DT"
  | sound => "ST"
  | key => "K"
  | glyph => "F"
  | decimal => "B"

/-- The operand that a text stands for. -/
def ofText? : List Char → Option Operand
  | ['I'] => some index
  | ['[', 'I', ']'] => some block
  | ['D', 'T'] => some delay
  | ['S', 'T'] => some sound
  | ['K'] => some key
  | ['F'] => some glyph
  | ['B'] => some decimal
  | ['V', c] => (Hex.digitValue? c).bind fun n =>
      if h : n < 16 then some (register ⟨n, h⟩) else none
  | '0' :: 'x' :: cs => (Hex.value? cs).map number
  | _ => none

end Operand

namespace Assembly

/-- The text of an assembly instruction. -/
def text (a : Assembly) : String :=
  match a.operands with
  | [] => a.name
  | operands => a.name ++ " " ++ ", ".intercalate (operands.map Operand.text)

/-- The parts of a text between commas, each comma followed by a blank. -/
def splitOperands : List Char → List (List Char)
  | [] => [[]]
  | ',' :: ' ' :: cs => [] :: splitOperands cs
  | c :: cs =>
    match splitOperands cs with
    | [] => [[c]]
    | part :: parts => (c :: part) :: parts

/-- All operands that a list of texts stands for. -/
def operandsOf? : List (List Char) → Option (List Operand)
  | [] => some []
  | cs :: rest =>
    match Operand.ofText? cs, operandsOf? rest with
    | some o, some os => some (o :: os)
    | _, _ => none

/-- The assembly instruction that a text stands for. -/
def ofText? (s : List Char) : Option Assembly :=
  let name := String.ofList (s.takeWhile (· ≠ ' '))
  match s.dropWhile (· ≠ ' ') with
  | [] => some ⟨name, []⟩
  | _ :: cs => (operandsOf? (splitOperands cs)).map fun os => ⟨name, os⟩

end Assembly

end Chip8
