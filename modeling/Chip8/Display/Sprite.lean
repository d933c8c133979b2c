import Chip8.Display
/-!
# Sprites

A sprite is a list of rows of eight dots, one byte a row with the leftmost
dot in the highest bit. Drawing it switches over one pixel for each of its
dots, from the top row and the left, and tells whether some pixel was lit
when it was switched over.
-/

namespace Chip8

namespace Display

/-- The columns of the dots in one row of a sprite, left to right. -/
def rowDots (line : UInt8) : List Nat :=
  (List.range 8).filter fun column => line.toNat.testBit (7 - column)

/-- The columns and rows of the dots of a sprite whose first row is at
`row`, in the order in which they are drawn. -/
def dotsFrom (row : Nat) : List UInt8 → List (Nat × Nat)
  | [] => []
  | line :: lines => (rowDots line).map (·, row) ++ dotsFrom (row + 1) lines

/-- The columns and rows of the dots of a sprite. -/
def dots (sprite : List UInt8) : List (Nat × Nat) :=
  dotsFrom 0 sprite

/-- A screen in the course of drawing, and whether a lit pixel has been
switched off so far. -/
structure Drawing where
  /-- The screen so far. -/
  display : Display
  /-- A lit pixel has been switched off. -/
  collision : Bool
deriving DecidableEq

/-- One more pixel switched over. -/
def Drawing.plot (s : Drawing) (x y : Nat) : Drawing :=
  let lit := s.display.pixel x y
  ⟨s.display.flip x y, lit || s.collision⟩

/-- The screen with a sprite drawn at a column and a row, and whether a lit
pixel was switched off. -/
def draw (d : Display) (sprite : List UInt8) (x y : Nat) : Drawing :=
  (dots sprite).foldl (fun s dot => s.plot (x + dot.1) (y + dot.2)) ⟨d, false⟩

end Display

end Chip8
