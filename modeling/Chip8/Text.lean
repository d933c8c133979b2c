/-!
# Text

Numbers are written in base sixteen, in lower or in upper case, filled up
with zeros on the left to a least number of digits. A reader takes digits
of either case, so that what is written can be read back. A value with named
parts is written as a record: its name followed by the parts in braces, and
its name alone when it has no parts.
-/

namespace Chip8

namespace Hex

/-- The lower-case digits of a number, most significant first and without
leading zeros; zero is the one digit `0`. -/
def digits (n : Nat) : List Char :=
  Nat.toDigits 16 n

/-- The digits filled up with zeros to a least width. -/
def padded (width n : Nat) : List Char :=
  (digits n).leftpad width '0'

/-- Lower-case text of at least `width` digits. -/
def lower (width n : Nat) : String :=
  String.ofList (padded width n)

/-- Upper-case text of at least `width` digits. -/
def upper (width n : Nat) : String :=
  String.ofList ((padded width n).map Char.toUpper)

/-- A literal: `0x` and at least `width` lower-case digits. -/
def literal (width n : Nat) : String :=
  "0x" ++ lower width n

/-! ## Reading -/

/-- The value of a digit of either case. -/
def digitValue? (c : Char) : Option Nat :=
  if '0' ≤ c ∧ c ≤ '9' then some (c.toNat - '0'.toNat)
  else if 'a' ≤ c ∧ c ≤ 'f' then some (c.toNat - 'a'.toNat + 10)
  else if 'A' ≤ c ∧ c ≤ 'F' then some (c.toNat - 'A'.toNat + 10)
  else none

/-- The number that a text of digits goes on to, from the value of the
digits before it. -/
def valueFrom? (n : Nat) : List Char → Option Nat
  | [] => some n
  | c :: cs => (digitValue? c).bind fun d => valueFrom? (16 * n + d) cs

/-- The number that a text of at least one digit stands for. -/
def value? : List Char → Option Nat
  | [] => none
  | cs => valueFrom? 0 cs

end Hex

namespace Record

/-- One part: its name, a colon and its value. -/
def field (part : String × String) : String :=
  part.1 ++ ": " ++ part.2

/-- The text of a record with the given name and parts. -/
def text (name : String) : List (String × String) → String
  | [] => name
  | parts => name ++ " \x7b " ++ ", ".intercalate (parts.map field) ++ " \x7d"

end Record

end Chip8
