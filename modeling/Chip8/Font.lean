import Chip8.Word
/-!
# The font

Sixteen glyphs, one for each hexadecimal digit, four pixels wide and five
rows high. Each row is a byte whose left half holds the pixels. The
machine keeps them in low memory, one after the other.
-/

namespace Chip8

namespace Font

/-- The number of glyphs. -/
def count : Nat := 16

/-- The number of rows of a glyph. -/
def height : Nat := 5

/-- Where the glyph of zero begins. -/
def start : UInt16 := 0x050

/-- The rows of all glyphs, top to bottom, by digit. -/
def glyphs : Vector (List UInt8) 16 := #v[
  [0xF0, 0x90, 0x90, 0x90, 0xF0],
  [0x20, 0x60, 0x20, 0x20, 0x70],
  [0xF0, 0x10, 0xF0, 0x80, 0xF0],
  [0xF0, 0x10, 0xF0, 0x10, 0xF0],
  [0x90, 0x90, 0xF0, 0x10, 0x10],
  [0xF0, 0x80, 0xF0, 0x10, 0xF0],
  [0xF0, 0x80, 0xF0, 0x90, 0xF0],
  [0xF0, 0x10, 0x20, 0x40, 0x40],
  [0xF0, 0x90, 0xF0, 0x90, 0xF0],
  [0xF0, 0x90, 0xF0, 0x10, 0xF0],
  [0xF0, 0x90, 0xF0, 0x90, 0x90],
  [0xE0, 0x90, 0xE0, 0x90, 0xE0],
  [0xF0, 0x80, 0x80, 0x80, 0xF0],
  [0xE0, 0x90, 0x90, 0x90, 0xE0],
  [0xF0, 0x80, 0xF0, 0x80, 0xF0],
  [0xF0, 0x80, 0xF0, 0x80, 0x80]]

/-- The rows of the glyph of a digit. -/
def glyph (d : Digit) : List UInt8 :=
  glyphs.get d

/-- Where the glyph of the lower digit of a byte begins. -/
def glyphAddress (b : UInt8) : UInt16 :=
  start + UInt16.ofNat height * (Digit.ofByte b).toWord

/-- All glyphs in the order of their digits, as they lie in memory. -/
def image : List UInt8 :=
  glyphs.toList.flatten

/-- Every glyph has the same number of rows. -/
theorem length_glyph (d : Digit) : (glyph d).length = height := by
  revert d
  decide

/-- Glyphs lie `height` bytes apart. -/
theorem toNat_glyphAddress (b : UInt8) :
    (glyphAddress b).toNat = 0x50 + height * (Digit.ofByte b).val := by
  have h := (Digit.ofByte b).isLt
  simp only [glyphAddress, start, height, UInt16.toNat_add, UInt16.toNat_mul,
    Digit.toNat_toWord, UInt16.reduceOfNat, UInt16.reduceToNat]
  omega

end Font

end Chip8
