import Chip8.Display
import Chip8.Text
/-!
# The screen as text

The rows of the screen, as pictures of one character a pixel and as
hexadecimal numbers of one digit for four pixels.
-/

namespace Chip8

namespace Display

/-- The rows from the top, each from the left, as they lie one after the
other. -/
def rows (d : Display) : List (List Bool) :=
  (List.range height).map fun y => (d.pixels.toList.drop (y * width)).take width

/-- The character of a pixel. -/
def pixelChar (lit : Bool) : Char :=
  if lit then '#' else '.'

/-- The pixel in a column and a row is found there in `rows`. -/
theorem getElem?_rows (d : Display) {x y : Nat} (hx : x < 64) (hy : y < 32) :
    (d.rows[y]?.bind fun row => row[x]?) = some (d.pixel x y) := by
  have hp : (place x y).val = y * 64 + x := by
    simp only [place]
    omega
  have hlt : y * 64 + x < 2048 := by omega
  have hget : d.pixel x y = d.pixels[y * 64 + x] := by
    simp only [pixel, Buffer.get_eq_getElem, hp]
  simp [rows, height, width, hy, hx, hget, hlt]

/-- One line of text for each row. -/
def text (d : Display) : String :=
  String.ofList (d.rows.flatMap fun row => row.map pixelChar ++ ['\n'])

/-- The number whose binary digits are the pixels of a row, the leftmost
first. -/
def rowNumber (row : List Bool) : Nat :=
  row.foldl (fun n lit => 2 * n + lit.toNat) 0

/-- A row as hexadecimal digits, four pixels to the digit. -/
def rowText (row : List Bool) : String :=
  Hex.lower (row.length / 4) (rowNumber row)

end Display

end Chip8
