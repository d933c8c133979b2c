import Chip8.Instruction.Mnemonic
/-!
# Listings

A program image as text: a line for each word, with its address, its
digits and its mnemonic, and a line of its own for a byte that is left
over. Most programs keep sprites among their instructions, so a word that
is no instruction is listed as `???`. Addresses go on past sixteen bits.
The lines show the whole image (`imageOf_lines`).
-/

namespace Chip8

namespace Listing

/-- One line of a listing. -/
inductive Line
  /-- Two bytes that make up a word. -/
  | word (address : Nat) (high low : UInt8)
  /-- The last byte of an image of odd length. -/
  | byte (address : Nat) (b : UInt8)
deriving DecidableEq, Repr

/-- The lines of an image that begins at an address. -/
def lines (address : Nat) : List UInt8 → List Line
  | [] => []
  | [b] => [.byte address b]
  | high :: low :: image => .word address high low :: lines (address + 2) image

namespace Line

/-- The bytes that a line shows. -/
def bytes : Line → List UInt8
  | word _ high low => [high, low]
  | byte _ b => [b]

/-- The address that a line begins with. -/
def address : Line → Nat
  | word address _ _ | byte address _ => address

/-- What a word does, or `???`. -/
def meaning (w : UInt16) : String :=
  (Instruction.decode? w).elim "???" Instruction.mnemonic

/-- The text of a line, without the line's end. -/
def text : Line → String
  | word address high low =>
    let w := Word.ofBytes high low
    Hex.upper 4 address ++ ": " ++ Hex.upper 4 w.toNat ++ "  " ++ meaning w
  | byte address b =>
    Hex.upper 4 address ++ ": " ++ Hex.upper 2 b.toNat ++ "    DB " ++ Hex.literal 2 b.toNat

end Line

/-- The text of lines, each with its end. -/
def textOf (ls : List Line) : String :=
  String.join (ls.map fun l => l.text ++ "\n")

/-- The listing of an image that is loaded at `origin`. -/
def text (origin : UInt16) (image : List UInt8) : String :=
  textOf (lines origin.toNat image)

/-- The image that lines show. -/
def imageOf (ls : List Line) : List UInt8 :=
  ls.flatMap Line.bytes

/-- The lines of an image show that image. -/
theorem imageOf_lines (address : Nat) (image : List UInt8) :
    imageOf (lines address image) = image := by
  fun_induction lines address image with
  | case1 => rfl
  | case2 => rfl
  | case3 address high low image ih => simpa [imageOf, Line.bytes] using ih

end Listing

end Chip8
