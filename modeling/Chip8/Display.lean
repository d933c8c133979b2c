import Chip8.Buffer
/-!
# The display

A screen of 64 by 32 pixels, each lit or not. Both edges are joined: a
column or row past the edge goes on at the other side. Switching a pixel
over shows at that pixel alone (`pixel_flip`), and a screen is determined
by its pixels (`ext_pixel`).
-/

namespace Chip8

/-- The pixels of the screen, row by row. -/
structure Display where
  /-- Whether each pixel is lit, row by row from the top left. -/
  pixels : Buffer Bool 2048
deriving DecidableEq

namespace Display

/-- The number of pixels in a row. -/
def width : Nat := 64

/-- The number of rows. -/
def height : Nat := 32

/-- The number of pixels. -/
def size : Nat := width * height

/-- The screen with no pixel lit. -/
def blank : Display := ⟨Buffer.blank⟩

/-- The screen with every pixel switched off. -/
def clear (d : Display) : Display := ⟨d.pixels.fill false⟩

/-- Where the pixel in a column and a row lies, both taken around the
edges. -/
def place (x y : Nat) : Fin 2048 :=
  ⟨y % 32 * 64 + x % 64, by omega⟩

/-- Whether the pixel in a column and a row is lit. -/
def pixel (d : Display) (x y : Nat) : Bool :=
  d.pixels.get (place x y)

/-- The screen with one pixel switched over. -/
def flip (d : Display) (x y : Nat) : Display :=
  ⟨d.pixels.put (place x y) !d.pixel x y⟩

/-- Whether no pixel is lit. -/
def isBlank (d : Display) : Bool :=
  Buffer.isBlank d.pixels

/-- The number of lit pixels. -/
def litCount (d : Display) : Nat :=
  d.pixels.toList.count true

/-! ## Laws -/

@[simp] theorem clear_eq (d : Display) : d.clear = blank := rfl

/-- Two places differ when their columns or rows do. -/
theorem place_eq_iff {x y a b : Nat} :
    place x y = place a b ↔ x % 64 = a % 64 ∧ y % 32 = b % 32 := by
  simp only [place, Fin.ext_iff]
  omega

/-- Flipping shows at its own pixel and nowhere else. -/
theorem pixel_flip (d : Display) (x y a b : Nat) :
    (d.flip x y).pixel a b =
      (decide (x % 64 = a % 64 ∧ y % 32 = b % 32) ^^ d.pixel a b) := by
  simp only [pixel, flip, Buffer.get_put, place_eq_iff]
  by_cases h : x % 64 = a % 64 ∧ y % 32 = b % 32
  · have e : place x y = place a b := place_eq_iff.2 h
    simp [h, e]
  · simp [h]

@[simp] theorem pixel_blank (x y : Nat) : blank.pixel x y = false := by
  simp only [pixel, blank, Buffer.get_blank]
  rfl

/-- Columns and rows are taken around the edges. -/
theorem pixel_mod (d : Display) (x y : Nat) : d.pixel (x % 64) (y % 32) = d.pixel x y := by
  simp [pixel, place]

/-- Screens with the same pixels are the same. -/
theorem ext_pixel {d e : Display} (h : ∀ x y, d.pixel x y = e.pixel x y) : d = e := by
  obtain ⟨d⟩ := d
  obtain ⟨e⟩ := e
  congr 1
  apply Buffer.ext_get
  intro i
  have hp : place (i.val % 64) (i.val / 64) = i := by
    simp only [place, Fin.ext_iff]
    omega
  simpa only [pixel, hp] using h (i.val % 64) (i.val / 64)

end Display

end Chip8
