import Chip8.Display.Text
import Chip8.Guarded.Screen
import Chip8.Proofs.Painting
import Chip8.Proofs.Parity
/-!
# The text of a screen is a picture of it

The text has a line for each row and a character for each pixel, so the
pixel of a place is found at a fixed position (`getElem?_text`) and no two
screens have the same text (`text_inj`). On a screen of bytes this holds of
those that drawing leads to: a stroke turns zero into one and one into zero
and finds nothing else (`eq_of_stroke?_screen`), whereas a byte of two would
have the character of a zero.
-/

namespace Chip8

open Guarded

/-- The elements of rows of the same length, one row after the other. -/
theorem getElem?_flatten_of_length {α : Type} {rows : List (List α)} {w : Nat}
    (h : ∀ row ∈ rows, row.length = w) {x : Nat} (hx : x < w) (y : Nat) :
    rows.flatten[w * y + x]? = rows[y]?.bind fun row => row[x]? := by
  induction rows generalizing y with
  | nil => rfl
  | cons row rows ih =>
    rw [List.forall_mem_cons] at h
    rw [List.flatten_cons]
    cases y with
    | zero =>
      rw [Nat.mul_zero, Nat.zero_add, List.getElem?_append_left (by omega)]
      rfl
    | succ y =>
      have hplace : w * (y + 1) + x - row.length = w * y + x := by
        rw [h.1, Nat.mul_succ]
        omega
      rw [List.getElem?_append_right (by rw [h.1, Nat.mul_succ]; omega), hplace, ih h.2]
      rfl

namespace Display

variable {d e : Display} {x y : Nat}

/-! ## Rows and lines -/

theorem length_rows (d : Display) : d.rows.length = 32 := by
  rw [rows, List.length_map, List.length_range, height]

theorem length_of_mem_rows {row : List Bool} (h : row ∈ d.rows) : row.length = 64 := by
  obtain ⟨y, hy, rfl⟩ := List.mem_map.1 h
  rw [List.mem_range, height] at hy
  rw [List.length_take, List.length_drop, Vector.length_toList, width]
  omega

/-- The lines of the text without their ends. -/
def lines (d : Display) : List (List Char) :=
  d.rows.map fun row => row.map pixelChar

theorem toList_text (d : Display) :
    d.text.toList = (d.lines.map fun line => line ++ ['\n']).flatten := by
  rw [text, String.toList_ofList, lines, List.map_map, List.flatMap]
  rfl

theorem length_lines (d : Display) : d.lines.length = 32 := by
  rw [lines, List.length_map, length_rows]

/-- A line is as long as a row and holds no end of a line. -/
theorem of_mem_lines {line : List Char} (h : line ∈ d.lines) :
    line.length = 64 ∧ '\n' ∉ line := by
  obtain ⟨row, hrow, rfl⟩ := List.mem_map.1 h
  refine ⟨by rw [List.length_map, length_of_mem_rows hrow], fun hmem => ?_⟩
  obtain ⟨lit, -, hchar⟩ := List.mem_map.1 hmem
  cases lit <;> cases hchar

/-- **The character of a pixel** stands where its row and column say, with
one more place in each line for its end. -/
theorem getElem?_text (d : Display) (hx : x < 64) (hy : y < 32) :
    d.text.toList[65 * y + x]? = some (pixelChar (d.pixel x y)) := by
  have hlength : ∀ line ∈ d.lines.map fun line => line ++ ['\n'], line.length = 65 := by
    intro line hline
    obtain ⟨chars, hchars, rfl⟩ := List.mem_map.1 hline
    rw [List.length_append, (of_mem_lines hchars).1]
    rfl
  obtain ⟨row, hrow, hpixel⟩ := Option.bind_eq_some_iff.1 (d.getElem?_rows hx hy)
  have hin : x < (row.map pixelChar).length := by
    rw [List.length_map, length_of_mem_rows (List.mem_of_getElem? hrow)]
    exact hx
  rw [toList_text, getElem?_flatten_of_length hlength (by omega), List.getElem?_map, lines,
    List.getElem?_map, hrow, Option.map_some, Option.map_some, Option.bind_some,
    List.getElem?_append_left hin, List.getElem?_map, hpixel, Option.map_some]

/-- **A screen is known by its text.** -/
theorem text_inj : d.text = e.text ↔ d = e := by
  constructor
  · intro h
    refine ext_pixel_fin fun px py => ?_
    have hchar := d.getElem?_text px.isLt py.isLt
    rw [h, e.getElem?_text px.isLt py.isLt, Option.some.injEq] at hchar
    revert hchar
    cases d.pixel px py <;> cases e.pixel px py <;> decide
  · exact congrArg text

/-! ## The screen as bytes -/

/-- The byte of a pixel. -/
def pixelByte (lit : Bool) : UInt8 :=
  if lit then 1 else 0

/-- The screen with a byte for each pixel. -/
def screen (d : Display) : Screen := ⟨d.bytes⟩

theorem screen_inj : d.screen = e.screen ↔ d = e := by
  constructor
  · intro h
    refine ext_pixel fun a b => ?_
    have hbyte := congrArg (fun s : Screen => s.bytes.get (place a b)) h
    simp only [screen, get_bytes] at hbyte
    rw [pixel, pixel]
    revert hbyte
    cases d.pixels.get (place a b) <;> cases e.pixels.get (place a b) <;> decide
  · exact congrArg screen

theorem screen_blank : blank.screen = Screen.blank :=
  congrArg Screen.mk bytes_blank

theorem clear_screen (d : Display) : d.screen.clear = d.clear.screen := by
  rw [clear_eq, screen_blank]
  rfl

theorem pixel?_screen (d : Display) (x y : Nat) :
    d.screen.pixel? x y = some (pixelByte (d.pixel x y)) := by
  have hat : d.bytes.at? ((place x y).val : Int) = some (d.bytes.get (place x y)) :=
    Buffer.at?_val d.bytes (place x y)
  rw [get_bytes] at hat
  exact hat

theorem rows_screen (d : Display) :
    d.screen.rows = d.rows.map fun row => row.map pixelByte := by
  have hbytes : d.screen.bytes.toList = d.pixels.toList.map pixelByte :=
    Vector.toList_map ..
  rw [Screen.rows, hbytes, rows, List.map_map]
  simp only [Function.comp_def, List.map_take, List.map_drop]

theorem text_screen (d : Display) : d.screen.text = d.text := by
  have hchar : Screen.byteChar ∘ pixelByte = pixelChar := by
    funext lit
    cases lit <;> rfl
  rw [Screen.text, rows_screen, text, List.flatMap_map]
  simp only [List.map_map, hchar]

/-- The byte of a row and column is that of the pixel there. -/
theorem getElem?_rows_screen (d : Display) (hx : x < 64) (hy : y < 32) :
    (d.screen.rows[y]?.bind fun row => row[x]?) = some (pixelByte (d.pixel x y)) := by
  obtain ⟨row, hrow, hpixel⟩ := Option.bind_eq_some_iff.1 (d.getElem?_rows hx hy)
  rw [rows_screen, List.getElem?_map, hrow, Option.map_some, Option.bind_some,
    List.getElem?_map, hpixel, Option.map_some]

/-! ## Strokes -/

/-- What is done to a screen. -/
inductive Stroke
  /-- A sprite is drawn at a place. -/
  | stamp (s : Stamp)
  /-- Every pixel is switched off. -/
  | clear

/-- The screen after a stroke. -/
def stroke (d : Display) : Stroke → Display
  | .stamp s => (d.stamp s).display
  | .clear => d.clear

/-- The screen after a list of strokes. -/
def strokeAll (d : Display) (strokes : List Stroke) : Display :=
  strokes.foldl stroke d

/-- The number of rows of the sprite that a stroke draws. -/
def Stroke.height : Stroke → Nat
  | .stamp s => s.sprite.length
  | .clear => 0

end Display

/-- The screen of bytes after a stroke. -/
def Guarded.Screen.stroke? (f : Screen) : Display.Stroke → Option Screen
  | .stamp s => (f.draw? s.sprite s.x s.y).map Prod.fst
  | .clear => some f.clear

/-- The screen of bytes after a list of strokes. -/
def Guarded.Screen.strokeAll? (f : Screen) (strokes : List Display.Stroke) : Option Screen :=
  strokes.foldlM Screen.stroke? f

namespace Display

variable {s : Stroke} {strokes : List Stroke} {d : Display} {f : Screen}

/-- A sprite whose rows can be counted in a word of 64 bits, from the lowest
row of the screen on, is drawn. -/
theorem stroke?_screen (d : Display) (h : s.height < UInt64.size / 2) :
    d.screen.stroke? s = some (d.stroke s).screen := by
  cases s with
  | clear => exact congrArg some d.clear_screen
  | stamp s =>
    have hy := s.y.toNat_lt
    have hfits : s.y.toNat + (0 + s.sprite.length) ≤ UInt64.size := by
      rw [UInt64.size] at h ⊢
      simp only [Stroke.height] at h
      omega
    have hpaint : Painting.plotRows? ⟨d.screen.bytes, false⟩ s.x s.y 0 s.sprite =
        some (d.stamp s).painting := plotRows?_painting ⟨d, false⟩ s.x s.y 0 hfits
    rw [Screen.stroke?, Screen.draw?, hpaint]
    rfl

/-- A stroke that comes out is that stroke. -/
theorem eq_of_stroke?_screen (h : d.screen.stroke? s = some f) : f = (d.stroke s).screen := by
  cases s with
  | clear => exact (Option.some.inj h).symm.trans d.clear_screen
  | stamp s =>
    rw [Screen.stroke?, Screen.draw?] at h
    obtain ⟨⟨g, lit⟩, hdraw, rfl⟩ := Option.map_eq_some_iff.1 h
    obtain ⟨t, hpaint, hg⟩ := Option.bind_eq_some_iff.1 hdraw
    have ht := eq_of_plotRows?_painting (s := ⟨d, false⟩) hpaint
    obtain ⟨rfl, -⟩ := Prod.mk.inj (Option.some.inj hg)
    rw [ht]
    rfl

theorem strokeAll?_screen (d : Display) (h : ∀ s ∈ strokes, s.height < UInt64.size / 2) :
    d.screen.strokeAll? strokes = some (d.strokeAll strokes).screen := by
  induction strokes generalizing d with
  | nil => rfl
  | cons s strokes ih =>
    rw [List.forall_mem_cons] at h
    rw [Screen.strokeAll?, List.foldlM_cons, stroke?_screen d h.1, Option.bind_eq_bind,
      Option.bind_some]
    exact ih (d.stroke s) h.2

/-- **A screen that strokes lead to is the one that they lead to**, and so
none of its bytes is other than zero or one. -/
theorem eq_of_strokeAll?_screen (h : d.screen.strokeAll? strokes = some f) :
    f = (d.strokeAll strokes).screen := by
  induction strokes generalizing d with
  | nil => exact (Option.some.inj h).symm
  | cons s strokes ih =>
    rw [Screen.strokeAll?, List.foldlM_cons] at h
    obtain ⟨g, hfirst, hrest⟩ := Option.bind_eq_some_iff.1 h
    rw [eq_of_stroke?_screen hfirst] at hrest
    exact ih hrest

end Display

/-! ## Pictures -/

/-- **A screen whose text is a picture of it.** Every byte is zero or one.
The text has thirty-two lines of sixty-four characters, each ended by a
newline. The place, the row and the text show the same byte, a one as `#`
and a zero as `.`, and places go around the edges. -/
structure Guarded.Screen.Pictured (f : Screen) : Prop where
  bit : ∀ i, f.bytes.get i = 0 ∨ f.bytes.get i = 1
  lines : ∃ lines : List (List Char),
    f.text.toList = (lines.map fun line => line ++ ['\n']).flatten ∧ lines.length = 32 ∧
      ∀ line ∈ lines, line.length = 64 ∧ '\n' ∉ line
  rows : f.rows.length = 32 ∧ ∀ row ∈ f.rows, row.length = 64
  place : ∀ x < 64, ∀ y < 32, ∃ b, f.pixel? x y = some b ∧
    (f.rows[y]?.bind fun row => row[x]?) = some b ∧
    (b = 1 ∧ f.text.toList[65 * y + x]? = some '#' ∨
      b = 0 ∧ f.text.toList[65 * y + x]? = some '.')
  around : ∀ x y, f.pixel? x y = f.pixel? (x % 64) (y % 32)

namespace Display

theorem pictured_screen (d : Display) : d.screen.Pictured := by
  constructor
  case bit => exact d.get_bytes_eq_zero_or_one
  case lines =>
    rw [text_screen]
    exact ⟨d.lines, d.toList_text, d.length_lines, fun line hline => of_mem_lines hline⟩
  case rows =>
    rw [rows_screen]
    refine ⟨by rw [List.length_map, length_rows], fun row hrow => ?_⟩
    obtain ⟨bits, hbits, rfl⟩ := List.mem_map.1 hrow
    rw [List.length_map, length_of_mem_rows hbits]
  case place =>
    intro x hx y hy
    refine ⟨_, d.pixel?_screen x y, d.getElem?_rows_screen hx hy, ?_⟩
    rw [text_screen, d.getElem?_text hx hy]
    cases d.pixel x y with
    | true => exact .inl ⟨rfl, rfl⟩
    | false => exact .inr ⟨rfl, rfl⟩
  case around =>
    intro x y
    rw [pixel?_screen, pixel?_screen, pixel_mod]

/-- **The text of a screen is a picture of it.** From a blank screen of
bytes, any strokes come out, as long as no sprite has more rows than a block
of memory can have bytes. Whatever strokes do come out, however long their
sprites are, the bytes are those of the screen that the strokes lead to, and
the text is its text; it is a picture of those bytes; and two screens that
strokes lead to have the same text exactly if they are the same. -/
theorem text_pictures (strokes : List Stroke) :
    ((∀ s ∈ strokes, s.height < UInt64.size / 2) →
      ∃ f, Screen.blank.strokeAll? strokes = some f) ∧
    ∀ f, Screen.blank.strokeAll? strokes = some f →
      f = (blank.strokeAll strokes).screen ∧ f.text = (blank.strokeAll strokes).text ∧
        f.Pictured ∧
        ∀ others g, Screen.blank.strokeAll? others = some g → (f.text = g.text ↔ f = g) := by
  rw [← screen_blank]
  refine ⟨fun h => ⟨_, strokeAll?_screen blank h⟩, fun f hf => ?_⟩
  obtain rfl := eq_of_strokeAll?_screen hf
  refine ⟨rfl, text_screen _, pictured_screen _, fun others g hg => ?_⟩
  obtain rfl := eq_of_strokeAll?_screen hg
  rw [text_screen, text_screen, text_inj, screen_inj]

/-- A blank screen after two dots drawn around both edges. -/
def aroundTheEdges : List Stroke :=
  [.clear, .stamp ⟨[0xC0], 63, 33⟩]

/-- The dots are at the two ends of the second line. -/
theorem text_pictures_aroundTheEdges :
    ∃ f, Screen.blank.strokeAll? aroundTheEdges = some f ∧
      f.pixel? 127 1 = some 1 ∧ f.text.toList[65 * 1 + 63]? = some '#' ∧
      f.text.toList[65 * 1 + 0]? = some '#' ∧ f.text ≠ Screen.blank.text := by
  have hheights : ∀ s ∈ aroundTheEdges, s.height < UInt64.size / 2 := by
    rw [aroundTheEdges, List.forall_mem_cons, List.forall_mem_singleton]
    decide
  have hlit : (blank.strokeAll aroundTheEdges).pixel 63 1 = true ∧
      (blank.strokeAll aroundTheEdges).pixel 0 1 = true := by decide +kernel
  obtain ⟨hout, hpictures⟩ := text_pictures aroundTheEdges
  obtain ⟨f, hf⟩ := hout hheights
  obtain ⟨hscreen, htext, hpictured, hsame⟩ := hpictures f hf
  have hright : f.pixel? 63 1 = some 1 := by
    rw [hscreen, pixel?_screen, hlit.1]
    rfl
  have hleft : f.text.toList[65 * 1 + 0]? = some '#' := by
    rw [htext, getElem?_text _ (by decide) (by decide), hlit.2]
    rfl
  have hchar : f.text.toList[65 * 1 + 63]? = some '#' := by
    rw [htext, getElem?_text _ (by decide) (by decide), hlit.1]
    rfl
  refine ⟨f, hf, (hpictured.around 127 1).trans hright, hchar, hleft, fun h => ?_⟩
  have hblank := (hsame [] Screen.blank rfl).1 h
  rw [hblank] at hright
  cases hright

/-- A byte that is neither zero nor one would not show. -/
example : Screen.byteChar 2 = Screen.byteChar 0 := by
  decide

end Display

end Chip8
