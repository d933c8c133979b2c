import Chip8.Listing
/-!
# Listings read back

The lines of a listing are recovered from its text, and from them the
image and the address at which it begins. A text that is not the text of
its own lines is refused.
-/

namespace Chip8

namespace Listing

/-- The line whose digits are given, four for a word and two for a byte. -/
def Line.ofDigits? (address value width : Nat) : Option Line :=
  match width with
  | 4 => some (.word address (UInt8.ofNat (value / 256)) (UInt8.ofNat value))
  | 2 => some (.byte address (UInt8.ofNat value))
  | _ => none

/-- The line that a text stands for; the text must be that line's own. -/
def Line.ofText? (cs : List Char) : Option Line :=
  let address := cs.takeWhile (· ≠ ':')
  let digits := (cs.drop (address.length + 2)).takeWhile (· ≠ ' ')
  match Hex.value? address, Hex.value? digits with
  | some a, some n =>
    (Line.ofDigits? a n digits.length).filter fun l => l.text.toList = cs
  | _, _ => none

/-- The lines of a text, of which each must have its end. -/
def splitLines (current : List Char) : List Char → Option (List (List Char))
  | [] => if current.isEmpty then some [] else none
  | '\n' :: cs => (splitLines [] cs).map (current.reverse :: ·)
  | c :: cs => splitLines (c :: current) cs

/-- The line of a text at a place, counted from zero. -/
def lineAt? (s : String) (k : Nat) : Option String :=
  (splitLines [] s.toList).bind fun ls => ls[k]?.map String.ofList

/-- All lines that a list of texts stands for. -/
def linesOf? : List (List Char) → Option (List Line)
  | [] => some []
  | cs :: rest =>
    match Line.ofText? cs, linesOf? rest with
    | some l, some ls => some (l :: ls)
    | _, _ => none

/-- The lines that the text of a listing stands for. -/
def ofText? (s : String) : Option (List Line) :=
  (splitLines [] s.toList).bind linesOf?

/-- The image whose listing a text is. -/
def imageOfText? (s : String) : Option (List UInt8) :=
  (ofText? s).map imageOf

/-- The address that a listing begins with; the listing of an empty image
shows none. -/
def originOfText? (s : String) : Option Nat :=
  (ofText? s).bind fun ls => ls.head?.map Line.address

end Listing

end Chip8
