import Mathlib.Data.Finset.Prod
import Mathlib.Data.List.GetD
import Chip8.Proofs.Sprites
/-!
# Drawing by parity

A sprite may be longer than the screen is high, and then its rows come
around and fall on pixels that they have switched over already. What a
drawing leaves is decided by how many of its dots fall on each pixel
(`hits`): the pixel changes when they are odd in number, and a lit pixel is
switched off when one of them falls on a pixel that was lit or two of them
fall on one pixel (`draw_by_parity`). Parities add up, whatever the order of
the drawings, and a drawing made twice adds nothing
(`stamps_in_any_order`).
-/

namespace Chip8

namespace Display

variable {x y px py column row : Nat} {sprite : List UInt8} {d : Display}

/-! ## The dots that fall on a pixel -/

/-- The dots of a sprite, drawn at the column `x` and the row `y`, that fall
on a pixel: each by its column, one of eight with the leftmost in the
highest bit, and its row. -/
def hits (sprite : List UInt8) (x y px py : Nat) : Finset (Nat × Nat) :=
  (Finset.range 8 ×ˢ Finset.range sprite.length).filter fun dot =>
    (sprite.getD dot.2 0).toNat.testBit (7 - dot.1) = true ∧
      (x + dot.1) % 64 = px ∧ (y + dot.2) % 32 = py

/-- Every place on the screen is that of a pixel. -/
theorem exists_place_eq (i : Fin 2048) : ∃ (px : Fin 64) (py : Fin 32), place px py = i := by
  refine ⟨⟨i.val % 64, Nat.mod_lt _ (by decide)⟩, ⟨i.val / 64, by omega⟩, ?_⟩
  simp only [place, Fin.ext_iff]
  omega

theorem pixel_eq_of_place_eq {a b : Nat} (h : place a b = place px py) :
    d.pixel a b = d.pixel px py := by
  rw [pixel, h, pixel]

theorem mem_hits_iff (hx : px < 64) (hy : py < 32) :
    (column, row) ∈ hits sprite x y px py ↔
      (column, row) ∈ dots sprite ∧ place (x + column) (y + row) = place px py := by
  have hplace : place (x + column) (y + row) = place px py ↔
      (x + column) % 64 = px ∧ (y + row) % 32 = py := by
    rw [place_eq_iff, Nat.mod_eq_of_lt hx, Nat.mod_eq_of_lt hy]
  rw [hits, Finset.mem_filter, Finset.mem_product, Finset.mem_range, Finset.mem_range,
    mem_dots_iff, hplace]
  constructor
  · rintro ⟨⟨hcolumn, hrow⟩, hbit, hfall⟩
    refine ⟨⟨sprite[row], List.getElem?_eq_getElem hrow, mem_rowDots_iff.2 ⟨hcolumn, ?_⟩⟩, hfall⟩
    rwa [List.getD_eq_getElem sprite 0 hrow] at hbit
  · rintro ⟨⟨line, hline, hdot⟩, hfall⟩
    obtain ⟨hcolumn, hbit⟩ := mem_rowDots_iff.1 hdot
    obtain ⟨hrow, rfl⟩ := List.getElem?_eq_some_iff.1 hline
    refine ⟨⟨hcolumn, hrow⟩, ?_, hfall⟩
    rwa [List.getD_eq_getElem sprite 0 hrow]

/-- **The dots that fall on a pixel, counted** along the drawing and by
their columns and rows. -/
theorem count_spots_dots (hx : px < 64) (hy : py < 32) :
    (spots x y (dots sprite)).count (place px py) = (hits sprite x y px py).card := by
  have hnodup : ((dots sprite).filter fun dot =>
      place (x + dot.1) (y + dot.2) == place px py).Nodup := (nodup_dotsFrom 0 sprite).filter _
  have hsame : hits sprite x y px py = ((dots sprite).filter fun dot =>
      place (x + dot.1) (y + dot.2) == place px py).toFinset := by
    ext ⟨column, row⟩
    rw [mem_hits_iff hx hy, List.mem_toFinset, List.mem_filter, beq_iff_eq]
  rw [hsame, List.toFinset_card_of_nodup hnodup, spots, List.count, List.countP_map,
    List.countP_eq_length_filter]
  rfl

/-- A pixel is hit when the drawing reaches its place. -/
theorem hits_nonempty_iff (hx : px < 64) (hy : py < 32) :
    (hits sprite x y px py).Nonempty ↔ place px py ∈ spots x y (dots sprite) := by
  rw [← Finset.card_pos, ← count_spots_dots hx hy, List.count_pos_iff]

/-! ## One drawing -/

/-- A pixel changes when an odd number of dots falls on it. -/
theorem pixel_draw (d : Display) (sprite : List UInt8) (x y : Nat) (hx : px < 64)
    (hy : py < 32) :
    (d.draw sprite x y).display.pixel px py =
      (decide ((hits sprite x y px py).card % 2 = 1) ^^ d.pixel px py) := by
  rw [draw_eq_plotAll, pixel_plotAll, count_spots_dots hx hy]

theorem exists_lit_spot_iff (d : Display) (sprite : List UInt8) (x y : Nat) :
    (∃ a b, place a b ∈ spots x y (dots sprite) ∧ d.pixel a b = true) ↔
      ∃ (px : Fin 64) (py : Fin 32), (hits sprite x y px py).Nonempty ∧
        d.pixel px py = true := by
  constructor
  · rintro ⟨a, b, hmem, hlit⟩
    obtain ⟨px, py, hplace⟩ := exists_place_eq (place a b)
    rw [← hplace] at hmem
    refine ⟨px, py, (hits_nonempty_iff px.isLt py.isLt).2 hmem, ?_⟩
    rwa [pixel_eq_of_place_eq hplace]
  · rintro ⟨px, py, hhit, hlit⟩
    exact ⟨px, py, (hits_nonempty_iff px.isLt py.isLt).1 hhit, hlit⟩

theorem not_nodup_spots_iff (sprite : List UInt8) (x y : Nat) :
    ¬(spots x y (dots sprite)).Nodup ↔
      ∃ (px : Fin 64) (py : Fin 32), 2 ≤ (hits sprite x y px py).card := by
  rw [List.nodup_iff_count_le_one, not_forall]
  constructor
  · rintro ⟨i, hi⟩
    obtain ⟨px, py, rfl⟩ := exists_place_eq i
    rw [count_spots_dots px.isLt py.isLt] at hi
    exact ⟨px, py, by omega⟩
  · rintro ⟨px, py, htwice⟩
    refine ⟨place px py, ?_⟩
    rw [count_spots_dots px.isLt py.isLt]
    omega

/-- A drawing switches a lit pixel off when it hits one that was lit, or
hits one twice. -/
theorem collision_draw_iff_hits (d : Display) (sprite : List UInt8) (x y : Nat) :
    (d.draw sprite x y).collision = true ↔
      (∃ (px : Fin 64) (py : Fin 32), (hits sprite x y px py).Nonempty ∧
        d.pixel px py = true) ∨
      ∃ (px : Fin 64) (py : Fin 32), 2 ≤ (hits sprite x y px py).card := by
  rw [draw_eq_plotAll, collision_plotAll_iff, exists_lit_spot_iff, not_nodup_spots_iff]
  exact or_iff_right Bool.false_ne_true

/-- **A sprite of any length is drawn by parity.** Each pixel of the screen
changes exactly when an odd number of the sprite's dots falls on it, rows
and columns being taken around the edges; and the drawing tells of a lit
pixel switched off exactly when a dot falls on a pixel that was lit before
it, or two dots fall on one pixel. -/
theorem draw_by_parity (d : Display) (sprite : List UInt8) (x y : Nat) :
    (∀ (px : Fin 64) (py : Fin 32), (d.draw sprite x y).display.pixel px py =
      (decide ((hits sprite x y px py).card % 2 = 1) ^^ d.pixel px py)) ∧
    ((d.draw sprite x y).collision = true ↔
      (∃ (px : Fin 64) (py : Fin 32), (hits sprite x y px py).Nonempty ∧
        d.pixel px py = true) ∨
      ∃ (px : Fin 64) (py : Fin 32), 2 ≤ (hits sprite x y px py).card) :=
  ⟨fun px py => pixel_draw d sprite x y px.isLt py.isLt, collision_draw_iff_hits d sprite x y⟩

/-! ## Several drawings -/

/-- A sprite and the place at which it is drawn. -/
structure Stamp where
  /-- The rows of the sprite. -/
  sprite : List UInt8
  /-- The column of its leftmost dots. -/
  x : UInt8
  /-- The row of its topmost dots. -/
  y : UInt8
deriving DecidableEq

/-- A stamp has a dot for a pixel. -/
def Stamp.Covers (s : Stamp) (px py : Nat) : Prop :=
  (hits s.sprite s.x.toNat s.y.toNat px py).Nonempty

instance (s : Stamp) (px py : Nat) : Decidable (s.Covers px py) :=
  inferInstanceAs (Decidable (hits s.sprite s.x.toNat s.y.toNat px py).Nonempty)

/-- One stamp drawn. -/
def stamp (d : Display) (s : Stamp) : Drawing :=
  d.draw s.sprite s.x.toNat s.y.toNat

/-- The screen after a list of stamps, drawn one after the other. -/
def stampAll (d : Display) (stamps : List Stamp) : Display :=
  stamps.foldl (fun d s => (d.stamp s).display) d

/-- Whether a stamp changes a pixel. -/
def Stamp.flips (s : Stamp) (px py : Nat) : Bool :=
  decide ((hits s.sprite s.x.toNat s.y.toNat px py).card % 2 = 1)

variable {s t : Stamp} {stamps others : List Stamp}

theorem pixel_stamp (d : Display) (s : Stamp) (px : Fin 64) (py : Fin 32) :
    (d.stamp s).display.pixel px py = (s.flips px py ^^ d.pixel px py) :=
  pixel_draw d s.sprite s.x.toNat s.y.toNat px.isLt py.isLt

/-- Screens with the same pixels inside the edges are the same. -/
theorem ext_pixel_fin {d e : Display} (h : ∀ (px : Fin 64) (py : Fin 32),
    d.pixel px py = e.pixel px py) : d = e := by
  refine ext_pixel fun a b => ?_
  obtain ⟨px, py, hplace⟩ := exists_place_eq (place a b)
  rw [← pixel_eq_of_place_eq hplace, ← pixel_eq_of_place_eq hplace]
  exact h px py

/-- Two stamps may change places. -/
theorem stamp_comm (d : Display) (s t : Stamp) :
    ((d.stamp s).display.stamp t).display = ((d.stamp t).display.stamp s).display := by
  refine ext_pixel_fin fun px py => ?_
  simp only [pixel_stamp]
  exact Bool.xor_left_comm _ _ _

/-- A stamp drawn twice is not there. -/
theorem stamp_stamp_self (d : Display) (s : Stamp) :
    ((d.stamp s).display.stamp s).display = d := by
  refine ext_pixel_fin fun px py => ?_
  rw [pixel_stamp, pixel_stamp, ← Bool.xor_assoc, Bool.xor_self, Bool.false_xor]

/-- The order of the stamps shows in nothing. -/
theorem stampAll_perm (h : stamps.Perm others) (d : Display) :
    d.stampAll stamps = d.stampAll others := by
  induction h generalizing d with
  | nil => rfl
  | cons s _ ih => exact ih (d.stamp s).display
  | swap s t stamps =>
    simp only [stampAll, List.foldl_cons]
    rw [stamp_comm]
  | trans _ _ ih ih' => exact (ih d).trans (ih' d)

/-- Two of the same stamp go out together, wherever they stand. -/
theorem stampAll_twice (d : Display) (before between after : List Stamp) (s : Stamp) :
    d.stampAll (before ++ s :: between ++ s :: after) =
      d.stampAll (before ++ between ++ after) := by
  have hperm : (before ++ s :: between ++ s :: after).Perm
      (s :: s :: (before ++ between ++ after)) := by
    refine List.perm_middle.trans (List.Perm.cons s ?_)
    rw [List.append_assoc, List.append_assoc, List.cons_append]
    exact List.perm_middle
  rw [stampAll_perm hperm, stampAll, List.foldl_cons, List.foldl_cons, stamp_stamp_self]
  rfl

/-! ## A stamp drawn twice in a row -/

/-- A stamp of at most 32 rows hits no pixel twice. -/
theorem card_hits_le_one (h : sprite.length ≤ 32) (hx : px < 64) (hy : py < 32) :
    (hits sprite x y px py).card ≤ 1 := by
  rw [← count_spots_dots hx hy]
  exact List.nodup_iff_count_le_one.1 (nodup_spots_dots h) (place px py)

/-- So it changes the pixels that it covers. -/
theorem Stamp.flips_eq_true_iff (h : s.sprite.length ≤ 32) (px : Fin 64) (py : Fin 32) :
    s.flips px py = true ↔ s.Covers px py := by
  have hone := card_hits_le_one (x := s.x.toNat) (y := s.y.toNat) h px.isLt py.isLt
  rw [flips, Covers, decide_eq_true_iff, ← Finset.card_pos]
  omega

theorem collision_stamp_iff (d : Display) (h : s.sprite.length ≤ 32) :
    (d.stamp s).collision = true ↔
      ∃ (px : Fin 64) (py : Fin 32), s.Covers px py ∧ d.pixel px py = true := by
  rw [stamp, collision_draw_iff_hits]
  refine or_iff_left ?_
  rintro ⟨px, py, htwice⟩
  have hone := card_hits_le_one (x := s.x.toNat) (y := s.y.toNat) h px.isLt py.isLt
  omega

/-- Where a stamp has been drawn, the pixels that it covers are the other
way round. -/
theorem collision_stamp_stamp_iff (d : Display) (h : s.sprite.length ≤ 32) :
    ((d.stamp s).display.stamp s).collision = true ↔
      ∃ (px : Fin 64) (py : Fin 32), s.Covers px py ∧ d.pixel px py = false := by
  rw [collision_stamp_iff (d.stamp s).display h]
  refine exists_congr fun px => exists_congr fun py => and_congr_right fun hcovers => ?_
  rw [pixel_stamp, (Stamp.flips_eq_true_iff h px py).2 hcovers, Bool.true_xor,
    Bool.not_eq_true']

/-- A row with no dot is zero. -/
theorem rowDots_eq_nil_iff {line : UInt8} : rowDots line = [] ↔ line = 0 := by
  constructor
  · intro h
    by_contra hline
    have hne : line.toNat ≠ 0 := fun e => hline (UInt8.toNat_inj.1 e)
    obtain ⟨i, hi⟩ := Nat.exists_testBit_of_ne_zero hne
    have hlt : i < 8 := by
      by_contra hge
      have hsmall : line.toNat < 2 ^ i :=
        Nat.lt_of_lt_of_le line.toNat_lt (Nat.pow_le_pow_right (by decide) (by omega))
      rw [Nat.testBit_lt_two_pow hsmall] at hi
      cases hi
    have hback : 7 - (7 - i) = i := by omega
    have hmem : 7 - i ∈ rowDots line := mem_rowDots_iff.2 ⟨by omega, by rwa [hback]⟩
    rw [h] at hmem
    cases hmem
  · rintro rfl
    decide

/-- A stamp covers nothing when its sprite has no dot. -/
theorem forall_not_covers_iff (s : Stamp) :
    (∀ (px : Fin 64) (py : Fin 32), ¬s.Covers px py) ↔ ∀ line ∈ s.sprite, line = 0 := by
  constructor
  · intro h line hline
    rw [← rowDots_eq_nil_iff, List.eq_nil_iff_forall_not_mem]
    intro column hcolumn
    obtain ⟨row, hrow⟩ := List.mem_iff_getElem?.1 hline
    obtain ⟨px, py, hplace⟩ := exists_place_eq (place (s.x.toNat + column) (s.y.toNat + row))
    refine h px py ⟨(column, row), (mem_hits_iff px.isLt py.isLt).2 ⟨?_, hplace.symm⟩⟩
    exact mem_dots_iff.2 ⟨line, hrow, hcolumn⟩
  · rintro h px py ⟨⟨column, row⟩, hdot⟩
    obtain ⟨line, hline, hcolumn⟩ := mem_dots_iff.1 ((mem_hits_iff px.isLt py.isLt).1 hdot).1
    rw [rowDots_eq_nil_iff.2 (h line (List.mem_of_getElem? hline))] at hcolumn
    cases hcolumn

/-- The two drawings together tell of every pixel that is covered. -/
theorem collisions_eq_false_iff (d : Display) (h : s.sprite.length ≤ 32) :
    ((d.stamp s).collision = false ∧ ((d.stamp s).display.stamp s).collision = false) ↔
      ∀ line ∈ s.sprite, line = 0 := by
  rw [← forall_not_covers_iff, ← Bool.not_eq_true, ← Bool.not_eq_true,
    collision_stamp_iff d h, collision_stamp_stamp_iff d h]
  constructor
  · rintro ⟨hlit, hunlit⟩ px py hcovers
    cases hpixel : d.pixel px py with
    | true => exact hlit ⟨px, py, hcovers, hpixel⟩
    | false => exact hunlit ⟨px, py, hcovers, hpixel⟩
  · intro hnone
    exact ⟨fun ⟨px, py, hcovers, _⟩ => hnone px py hcovers,
      fun ⟨px, py, hcovers, _⟩ => hnone px py hcovers⟩

/-- **Stamps may be drawn in any order, and a stamp drawn twice goes out.**
However a list of stamps is reordered, and whichever two of the same are
left out of it, the screen at the end is the same. A stamp of at most 32
rows drawn twice in a row gives the screen back; the first drawing tells
whether a pixel that it covers was lit, and the second whether one was not,
so that neither tells of any only if the sprite has no dot. -/
theorem stamps_in_any_order (d : Display) :
    (∀ stamps others : List Stamp, stamps.Perm others →
      d.stampAll stamps = d.stampAll others) ∧
    (∀ (before between after : List Stamp) (s : Stamp),
      d.stampAll (before ++ s :: between ++ s :: after) =
        d.stampAll (before ++ between ++ after)) ∧
    ∀ s : Stamp, s.sprite.length ≤ 32 →
      let first := d.stamp s
      let second := first.display.stamp s
      second.display = d ∧
      (first.collision = true ↔
        ∃ (px : Fin 64) (py : Fin 32), s.Covers px py ∧ d.pixel px py = true) ∧
      (second.collision = true ↔
        ∃ (px : Fin 64) (py : Fin 32), s.Covers px py ∧ d.pixel px py = false) ∧
      (first.collision = false ∧ second.collision = false ↔
        ∀ line ∈ s.sprite, line = 0) := by
  refine ⟨fun stamps others h => stampAll_perm h d, stampAll_twice d, fun s h => ?_⟩
  exact ⟨stamp_stamp_self d s, collision_stamp_iff d h, collision_stamp_stamp_iff d h,
    collisions_eq_false_iff d h⟩

/-- A column of forty dots, which comes around and puts its first eight out
again. -/
def pole : Stamp := ⟨List.replicate 40 0x80, 3, 250⟩

/-- A row of eight dots. -/
def bar : Stamp := ⟨[0xFF], 0, 2⟩

/-- The bar crosses the pole at its topmost lit pixel. -/
theorem stamps_in_any_order_crossing :
    let d := blank.stampAll [pole]
    let first := d.stamp bar
    let second := first.display.stamp bar
    [bar, pole, bar].Perm [pole, bar, bar] ∧ bar.sprite.length ≤ 32 ∧
      blank.stampAll [bar, pole, bar] = blank.stampAll [pole, bar, bar] ∧
      blank.stampAll [bar, pole, bar] = d ∧ second.display = d ∧
      d.pixel 3 1 = false ∧ first.collision = true ∧ second.collision = true := by
  intro d first second
  have hperm : [bar, pole, bar].Perm [pole, bar, bar] := List.Perm.swap pole bar [bar]
  have hlength : bar.sprite.length ≤ 32 := by decide
  obtain ⟨hpole, hlit, hunlit⟩ : d.pixel 3 1 = false ∧
      (bar.Covers 3 2 ∧ d.pixel 3 2 = true) ∧ (bar.Covers 0 2 ∧ d.pixel 0 2 = false) := by
    decide +kernel
  obtain ⟨horder, htwice, -⟩ := stamps_in_any_order blank
  obtain ⟨-, -, hpair⟩ := stamps_in_any_order d
  obtain ⟨hback, hfirst, hsecond, -⟩ := hpair bar hlength
  exact ⟨hperm, hlength, horder _ _ hperm, htwice [] [pole] [] bar, hback, hpole,
    hfirst.2 ⟨3, 2, hlit⟩, hsecond.2 ⟨0, 2, hunlit⟩⟩

end Display

end Chip8
