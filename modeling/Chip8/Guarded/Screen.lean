import Chip8.Guarded.Board
/-!
# The screen in checked cells

A screen of bytes, one a pixel and row by row, apart from the rest of the
machine: what draws on it, and the three ways of reading it, by a place, by
the row and as text. Nothing in its type keeps a byte at zero or one.
-/

namespace Chip8

namespace Guarded

/-- The bytes of the pixels. -/
structure Screen where
  /-- The byte of each pixel, row by row from the top left. -/
  bytes : Buffer UInt8 2048
deriving DecidableEq

namespace Screen

/-- The screen with every byte zero. -/
def blank : Screen := ⟨Buffer.blank⟩

/-- The screen with every byte put back to zero. -/
def clear (s : Screen) : Screen := ⟨s.bytes.fill 0⟩

/-- The screen with a sprite drawn at a column and a row, and whether a lit
pixel was switched off. -/
def draw? (s : Screen) (sprite : List UInt8) (x y : UInt8) : Option (Screen × Bool) := do
  let painting ← Painting.plotRows? ⟨s.bytes, false⟩ x y 0 sprite
  some (⟨painting.frame⟩, painting.collision)

/-- The byte of the pixel in a column and a row, both taken around the
edges. -/
def pixel? (s : Screen) (x y : Nat) : Option UInt8 :=
  s.bytes.at? (y % Display.height * Display.width + x % Display.width : Nat)

/-- The rows from the top, each from the left, as they lie one after the
other. -/
def rows (s : Screen) : List (List UInt8) :=
  (List.range Display.height).map fun y =>
    (s.bytes.toList.drop (y * Display.width)).take Display.width

/-- The character of a byte. -/
def byteChar (b : UInt8) : Char :=
  if b == 1 then '#' else '.'

/-- One line of text for each row. -/
def text (s : Screen) : String :=
  String.ofList (s.rows.flatMap fun row => row.map byteChar ++ ['\n'])

end Screen

end Guarded

end Chip8
