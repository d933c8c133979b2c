import Mathlib.Data.List.Nodup
import Chip8.Machine.Action
/-!
# Sprites on the screen

Drawing switches pixels over one after the other, so a pixel ends up as it
was but for the parity of the number of dots that fall on it
(`pixel_plotAll`), and a lit pixel is switched off exactly when some dot
falls on a pixel that was lit, or two dots fall on one pixel
(`collision_plotAll_iff`). The dots of a sprite of at most 32 rows all fall
on different pixels, since neither edge is reached twice
(`nodup_spots_dots`); then the pixel alone tells which dot, if any, falls
on it (`mem_spots_dots_iff`).
-/

namespace Chip8

namespace Display

variable {x y a b row column : Nat} {line : UInt8} {sprite lines : List UInt8}
variable {dots : List (Nat × Nat)}

/-! ## Pixels switched over one after the other -/

/-- A list of dots switched over, each as far from a column and a row as it
says. -/
def Drawing.plotAll (s : Drawing) (x y : Nat) (dots : List (Nat × Nat)) : Drawing :=
  dots.foldl (fun s dot => s.plot (x + dot.1) (y + dot.2)) s

/-- Where on the screen a list of dots falls. -/
def spots (x y : Nat) (dots : List (Nat × Nat)) : List (Fin 2048) :=
  dots.map fun dot => place (x + dot.1) (y + dot.2)

theorem draw_eq_plotAll (d : Display) (sprite : List UInt8) (x y : Nat) :
    d.draw sprite x y = Drawing.plotAll ⟨d, false⟩ x y (Display.dots sprite) := rfl

theorem pixel_plot (s : Drawing) (x y a b : Nat) :
    (s.plot x y).display.pixel a b =
      (decide (place x y = place a b) ^^ s.display.pixel a b) := by
  simp only [place_eq_iff]
  exact pixel_flip s.display x y a b

/-- One more in a count turns its parity over. -/
theorem parity_add_ite (count : Nat) (hit : Prop) [Decidable hit] :
    decide ((count + if hit then 1 else 0) % 2 = 1) =
      (decide (count % 2 = 1) ^^ decide hit) := by
  by_cases h : hit
  · rw [if_pos h, decide_eq_true h, Bool.xor_true, ← decide_not, decide_eq_decide]
    omega
  · simp [h]

/-- **The parity of the dots on a pixel** decides whether it changes. -/
theorem pixel_plotAll (s : Drawing) (x y : Nat) (dots : List (Nat × Nat)) (a b : Nat) :
    (s.plotAll x y dots).display.pixel a b =
      (decide ((spots x y dots).count (place a b) % 2 = 1) ^^ s.display.pixel a b) := by
  -- on the dots still to be drawn, for any drawing begun so far
  induction dots generalizing s with
  | nil => simp [Drawing.plotAll, spots]
  | cons dot dots ih =>
    have hcount : (spots x y (dot :: dots)).count (place a b) =
        (spots x y dots).count (place a b) +
          if place (x + dot.1) (y + dot.2) = place a b then 1 else 0 := by
      simp only [spots, List.map_cons, List.count_cons, beq_iff_eq]
    rw [hcount, parity_add_ite, Bool.xor_assoc, ← pixel_plot]
    exact ih (s.plot (x + dot.1) (y + dot.2))

/-- A dot that falls where none of a list falls shows in none of the
list's pixels. -/
theorem pixel_plot_of_mem_spots {s : Drawing} (h : place x y ∉ spots a b dots)
    (hm : place column row ∈ spots a b dots) :
    (s.plot x y).display.pixel column row = s.display.pixel column row := by
  have hne : place x y ≠ place column row := fun e => h (e ▸ hm)
  rw [pixel_plot, decide_eq_false hne, Bool.false_xor]

/-- **A lit pixel is switched off** exactly when it was lit before and a dot
falls on it, or when a second dot falls on a pixel. -/
theorem collision_plotAll_iff (s : Drawing) (x y : Nat) (dots : List (Nat × Nat)) :
    (s.plotAll x y dots).collision = true ↔
      s.collision = true ∨
        (∃ a b, place a b ∈ spots x y dots ∧ s.display.pixel a b = true) ∨
        ¬(spots x y dots).Nodup := by
  induction dots generalizing s with
  | nil => simp [Drawing.plotAll, spots]
  | cons dot dots ih =>
    have hcollision : (s.plot (x + dot.1) (y + dot.2)).collision =
        (s.display.pixel (x + dot.1) (y + dot.2) || s.collision) := rfl
    have hspots : spots x y (dot :: dots) =
        place (x + dot.1) (y + dot.2) :: spots x y dots := rfl
    refine (ih (s.plot (x + dot.1) (y + dot.2))).trans ?_
    rw [hcollision, hspots, Bool.or_eq_true, List.nodup_cons]
    by_cases hmem : place (x + dot.1) (y + dot.2) ∈ spots x y dots
    · -- a later dot falls there too, on a lit pixel if this one does not
      refine iff_of_true ?_ (.inr (.inr fun h => h.1 hmem))
      by_cases hlit : s.display.pixel (x + dot.1) (y + dot.2) = true
      · exact .inl (.inl hlit)
      · refine .inr (.inl ⟨_, _, hmem, ?_⟩)
        rw [pixel_plot, decide_eq_true rfl, Bool.true_xor, Bool.not_eq_true', Bool.eq_false_iff]
        exact hlit
    · constructor
      · rintro ((hlit | h) | ⟨a, b, hm, hlit⟩ | h)
        · exact .inr (.inl ⟨_, _, List.mem_cons_self, hlit⟩)
        · exact .inl h
        · rw [pixel_plot_of_mem_spots hmem hm] at hlit
          exact .inr (.inl ⟨a, b, List.mem_cons_of_mem _ hm, hlit⟩)
        · exact .inr (.inr fun hn => h hn.2)
      · rintro (h | ⟨a, b, hm, hlit⟩ | h)
        · exact .inl (.inr h)
        · rcases List.mem_cons.1 hm with e | hm
          · refine .inl (.inl ?_)
            rw [← hlit, pixel, pixel, e]
          · refine .inr (.inl ⟨a, b, hm, ?_⟩)
            rw [pixel_plot_of_mem_spots hmem hm, hlit]
        · exact .inr (.inr fun hn => h ⟨hmem, hn⟩)

/-! ## The dots of a sprite -/

theorem mem_rowDots_iff : column ∈ rowDots line ↔
    column < 8 ∧ line.toNat.testBit (7 - column) = true := by
  rw [rowDots, List.mem_filter, List.mem_range]

/-- The dots of the rows from `first` on. -/
theorem mem_dotsFrom_iff {first : Nat} :
    (column, row) ∈ dotsFrom first lines ↔
      first ≤ row ∧ ∃ line, lines[row - first]? = some line ∧ column ∈ rowDots line := by
  induction lines generalizing first with
  | nil => simp [dotsFrom]
  | cons line lines ih =>
    rw [dotsFrom, List.mem_append, List.mem_map, ih]
    constructor
    · rintro (⟨c, hc, e⟩ | ⟨hrow, l, hl, hc⟩)
      · obtain ⟨rfl, rfl⟩ := Prod.mk.inj e
        exact ⟨Nat.le_refl _, line, by rw [Nat.sub_self, List.getElem?_cons_zero], hc⟩
      · have e : row - first = row - (first + 1) + 1 := by omega
        exact ⟨by omega, l, by rw [e, List.getElem?_cons_succ, hl], hc⟩
    · rintro ⟨hrow, l, hl, hc⟩
      rcases Nat.eq_or_lt_of_le hrow with rfl | hlt
      · rw [Nat.sub_self, List.getElem?_cons_zero, Option.some.injEq] at hl
        subst hl
        exact .inl ⟨column, hc, rfl⟩
      · have e : row - first = row - (first + 1) + 1 := by omega
        rw [e, List.getElem?_cons_succ] at hl
        exact .inr ⟨hlt, l, hl, hc⟩

/-- A sprite has no dot twice. -/
theorem nodup_dotsFrom (first : Nat) (lines : List UInt8) : (dotsFrom first lines).Nodup := by
  induction lines generalizing first with
  | nil => exact List.nodup_nil
  | cons line lines ih =>
    rw [dotsFrom, List.nodup_append]
    refine ⟨?_, ih (first + 1), ?_⟩
    · have h : (rowDots line).Nodup := List.nodup_range.filter _
      exact h.map fun c d e => (Prod.mk.inj e).1
    · rintro ⟨c, r⟩ hc ⟨d, q⟩ hd e
      obtain ⟨_, _, e'⟩ := List.mem_map.1 hc
      obtain ⟨-, rfl⟩ := Prod.mk.inj e'
      obtain ⟨-, rfl⟩ := Prod.mk.inj e
      exact absurd (mem_dotsFrom_iff.1 hd).1 (by omega)

theorem mem_dots_iff : (column, row) ∈ Display.dots sprite ↔
    ∃ line, sprite[row]? = some line ∧ column ∈ rowDots line := by
  rw [Display.dots, mem_dotsFrom_iff, Nat.sub_zero]
  exact and_iff_right (Nat.zero_le row)

/-- The dots of a sprite of at most 32 rows fall on different pixels. -/
theorem nodup_spots_dots (h : sprite.length ≤ 32) : (spots x y (Display.dots sprite)).Nodup := by
  refine List.Nodup.map_on ?_ (nodup_dotsFrom 0 sprite)
  rintro ⟨c, r⟩ hc ⟨d, q⟩ hd e
  obtain ⟨l, hr, hl⟩ := mem_dots_iff.1 hc
  obtain ⟨k, hq, hk⟩ := mem_dots_iff.1 hd
  have hrow := (List.getElem?_eq_some_iff.1 hr).1
  have hrow' := (List.getElem?_eq_some_iff.1 hq).1
  have hcolumn := (mem_rowDots_iff.1 hl).1
  have hcolumn' := (mem_rowDots_iff.1 hk).1
  obtain ⟨ex, ey⟩ := place_eq_iff.1 e
  rw [Prod.mk.injEq]
  omega

/-! ## Which dot falls on a pixel -/

/-- How far a coordinate lies past another one, around an edge after `size`
pixels. -/
def past (size start coordinate : Nat) : Nat :=
  (((coordinate : Int) - start) % size).toNat

theorem past_eq_iff {size start coordinate k : Nat} (hc : coordinate < size) (hk : k < size) :
    past size start coordinate = k ↔ (start + k) % size = coordinate := by
  have hpos : (0 : Int) < size := by omega
  have hnonneg := Int.emod_nonneg ((coordinate : Int) - start) (Int.ne_of_gt hpos)
  constructor
  · intro h
    have hk' : ((coordinate : Int) - start) % size = k := by
      rw [← h, past, Int.toNat_of_nonneg hnonneg]
    have hcast : (((start + k) % size : Nat) : Int) = coordinate := by
      have e : (start : Int) + (coordinate - start) = coordinate := by omega
      push_cast
      rw [← hk', Int.add_emod_emod, e]
      exact Int.emod_eq_of_lt (by omega) (by omega)
    exact Int.ofNat.inj hcast
  · rintro rfl
    have e : (((start + k) % size : Nat) : Int) - start = (start + k : Int) % size - start := by
      push_cast
      rfl
    have ek : (start + k : Int) - start = k := by omega
    rw [past, e, Int.emod_sub_emod, ek, Int.emod_eq_of_lt (by omega) (by omega),
      Int.toNat_natCast]

theorem past_lt {size : Nat} (h : 0 < size) (start coordinate : Nat) :
    past size start coordinate < size := by
  have hlt := Int.emod_lt_of_pos ((coordinate : Int) - start) (by omega : (0 : Int) < size)
  have hnonneg := Int.emod_nonneg ((coordinate : Int) - start) (by omega : (size : Int) ≠ 0)
  rw [past]
  omega

/-- **The only dot that can fall on a pixel** is the one as far into the
sprite as the pixel lies past the sprite's place. -/
theorem mem_spots_dots_iff (hx : a < 64) (hy : b < 32) (h : sprite.length ≤ 32) :
    place a b ∈ spots x y (Display.dots sprite) ↔
      ∃ line, sprite[past 32 y b]? = some line ∧ past 64 x a ∈ rowDots line := by
  have hplace : ∀ c r, c < 64 → r < 32 →
      (place (x + c) (y + r) = place a b ↔ past 64 x a = c ∧ past 32 y b = r) := by
    intro c r hc hr
    rw [place_eq_iff, past_eq_iff hx hc, past_eq_iff hy hr, Nat.mod_eq_of_lt hx,
      Nat.mod_eq_of_lt hy]
  constructor
  · intro hm
    obtain ⟨⟨c, r⟩, hdot, e⟩ := List.mem_map.1 hm
    obtain ⟨line, hline, hc⟩ := mem_dots_iff.1 hdot
    have hrow := (List.getElem?_eq_some_iff.1 hline).1
    have hcolumn := (mem_rowDots_iff.1 hc).1
    obtain ⟨rfl, rfl⟩ := (hplace c r (by omega) (by omega)).1 e
    exact ⟨line, hline, hc⟩
  · intro hdot
    refine List.mem_map.2 ⟨_, mem_dots_iff.2 hdot, ?_⟩
    exact (hplace _ _ (past_lt (by decide) x a) (past_lt (by decide) y b)).2 ⟨rfl, rfl⟩

end Display

/-! ## The drawing instruction -/

/-- A byte in a block read from memory. -/
theorem Memory.getElem?_readBlock_eq_some_iff {memory : Memory} {addr : UInt16} {count k : Nat}
    {b : UInt8} :
    (memory.readBlock addr count)[k]? = some b ↔
      k < count ∧
        memory.cells.get ⟨(addr.toNat + k) % 4096, Nat.mod_lt _ (by decide)⟩ = b := by
  have hcell : Address.ofWord (addr + UInt16.ofNat k) =
      ⟨(addr.toNat + k) % 4096, Nat.mod_lt _ (by decide)⟩ := Address.ofWord_add_ofNat addr k
  rw [← hcell, Memory.readBlock, List.getElem?_map, Option.map_eq_some_iff]
  constructor
  · rintro ⟨j, hj, rfl⟩
    obtain ⟨hlt, rfl⟩ := List.getElem?_eq_some_iff.1 hj
    rw [List.getElem_range]
    rw [List.length_range] at hlt
    exact ⟨hlt, rfl⟩
  · rintro ⟨hlt, rfl⟩
    exact ⟨k, List.getElem?_range hlt, rfl⟩

/-- The parts of a word that is written with two registers and a last
digit. -/
theorem Fields.ofWord_wordOfDigits (family x y last : Digit) :
    let f := Fields.ofWord (Instruction.wordOfDigits family.val x y last.val)
    f.family = family ∧ f.x = x ∧ f.y = y ∧ f.n = last := by
  have hw : (Instruction.wordOfDigits family.val x y last.val).toNat =
      family.val * 4096 + x.val * 256 + y.val * 16 + last.val := by
    rw [Instruction.wordOfDigits, UInt16.toNat_ofNat']
    omega
  simp only [Fields.ofWord, Word.digit, Fin.ext_iff, Fin.val_ofNat, hw]
  omega

theorem Instruction.decode?_encode_draw (x y rows : Digit) :
    decode? (encode (.draw x y rows)) = some (.draw x y rows) := by
  obtain ⟨hf, hx, hy, hn⟩ := Fields.ofWord_wordOfDigits ⟨0xD, by decide⟩ x y rows
  have e : encode (.draw x y rows) = wordOfDigits (⟨0xD, by decide⟩ : Digit).val x y rows.val := rfl
  rw [decode?, e, ofFields?, hf, hx, hy, hn]
  rfl

namespace Machine

variable {m : Machine} {x y rows : Digit}

/-- **Whether a drawing instruction has a dot for a pixel**: the pixel lies,
around the edges, less than so many rows and less than eight columns past
the place that two registers give, and its bit in the byte for its row is
set. -/
def Covers (m : Machine) (x y rows : Digit) (px py : Nat) : Prop :=
  let row := Display.past 32 (m.v y).toNat py
  let column := Display.past 64 (m.v x).toNat px
  row < rows.val ∧ column < 8 ∧
    (m.memory.cells.get ⟨(m.index.toNat + row) % 4096, Nat.mod_lt _ (by decide)⟩).toNat.testBit
      (7 - column) = true

instance (m : Machine) (x y rows : Digit) (px py : Nat) : Decidable (m.Covers x y rows px py) :=
  inferInstanceAs (Decidable (_ ∧ _ ∧ _))

/-- A dot of the sprite in memory falls on a pixel exactly when the
instruction has one for it. -/
theorem mem_spots_iff_covers {px py : Nat} (hx : px < 64) (hy : py < 32) :
    Display.place px py ∈ Display.spots (m.v x).toNat (m.v y).toNat
        (Display.dots (m.memory.readBlock m.index rows.val)) ↔
      m.Covers x y rows px py := by
  have hlen : (m.memory.readBlock m.index rows.val).length ≤ 32 := by
    rw [Memory.length_readBlock]
    omega
  rw [Display.mem_spots_dots_iff hx hy hlen]
  constructor
  · rintro ⟨line, hline, hdot⟩
    obtain ⟨hrow, rfl⟩ := Memory.getElem?_readBlock_eq_some_iff.1 hline
    exact ⟨hrow, Display.mem_rowDots_iff.1 hdot⟩
  · rintro ⟨hrow, hdot⟩
    exact ⟨_, Memory.getElem?_readBlock_eq_some_iff.2 ⟨hrow, rfl⟩, Display.mem_rowDots_iff.2 hdot⟩

theorem nodup_spots_readBlock (m : Machine) (x y rows : Digit) :
    (Display.spots (m.v x).toNat (m.v y).toNat
      (Display.dots (m.memory.readBlock m.index rows.val))).Nodup := by
  apply Display.nodup_spots_dots
  rw [Memory.length_readBlock]
  omega

/-- A drawing switches over the pixels that it has dots for. -/
theorem pixel_drawSprite {px py : Nat} (hx : px < 64) (hy : py < 32) :
    (m.drawSprite x y rows).display.pixel px py =
      (decide (m.Covers x y rows px py) ^^ m.display.pixel px py) := by
  have hparity := Display.pixel_plotAll ⟨m.display, false⟩ (m.v x).toNat (m.v y).toNat
    (Display.dots (m.memory.readBlock m.index rows.val)) px py
  rw [(nodup_spots_readBlock m x y rows).count] at hparity
  refine hparity.trans ?_
  simp only [mem_spots_iff_covers hx hy]
  by_cases h : m.Covers x y rows px py <;> simp [h]

/-- A drawing collides when it has a dot for a lit pixel. -/
theorem collision_draw_iff (m : Machine) (x y rows : Digit) :
    (m.display.draw (m.memory.readBlock m.index rows.val) (m.v x).toNat
        (m.v y).toNat).collision = true ↔
      ∃ (px : Fin 64) (py : Fin 32),
        m.Covers x y rows px py ∧ m.display.pixel px py = true := by
  rw [Display.draw_eq_plotAll, Display.collision_plotAll_iff]
  constructor
  · rintro (h | ⟨a, b, hm, hlit⟩ | h)
    · cases h
    · -- the pixel by its place within the edges
      have ha : a % 64 < 64 := Nat.mod_lt _ (by decide)
      have hb : b % 32 < 32 := Nat.mod_lt _ (by decide)
      have hplace : Display.place (a % 64) (b % 32) = Display.place a b := by
        simp [Display.place_eq_iff]
      rw [← hplace] at hm
      exact ⟨⟨a % 64, ha⟩, ⟨b % 32, hb⟩, (mem_spots_iff_covers ha hb).1 hm,
        (Display.pixel_mod _ _ _).trans hlit⟩
    · exact absurd (nodup_spots_readBlock m x y rows) h
  · rintro ⟨px, py, hc, hlit⟩
    exact .inr (.inl ⟨px, py, (mem_spots_iff_covers px.isLt py.isLt).2 hc, hlit⟩)

/-- **A drawing instruction draws exactly its sprite.** It goes through; a
pixel is switched over exactly when the instruction has a dot for it; the
flag register holds one if some pixel was lit when it was switched over,
and zero otherwise; and nothing changes but the screen, the flag register,
the redraw flag and the program counter, which moves on by one word. The
two registers are read before the flag is written, so that the flag
register may be one of them. -/
theorem execute_draw (m : Machine) (x y rows : Digit) :
    ∃ n : Machine, m.execute (.draw x y rows) = .ok n ∧
      (∀ (px : Fin 64) (py : Fin 32), n.display.pixel px py =
        (decide (m.Covers x y rows px py) ^^ m.display.pixel px py)) ∧
      n.v Registers.flag =
        (if ∃ (px : Fin 64) (py : Fin 32),
          m.Covers x y rows px py ∧ m.display.pixel px py = true then 1 else 0) ∧
      n = { m with
        display := n.display
        redraw := true
        registers := { m.registers.set Registers.flag (n.v Registers.flag) with pc := m.pc + 2 } } ∧
      (m.fault = none → m.fetch = Instruction.encode (.draw x y rows) →
        m.cycle = (.ok (), n)) := by
  have hexecute : m.execute (.draw x y rows) = .ok (m.drawSprite x y rows).next := rfl
  refine ⟨_, hexecute, ?_, ?_, ?_, ?_⟩
  · intro px py
    exact pixel_drawSprite px.isLt py.isLt
  · simp only [← collision_draw_iff]
    exact (Registers.v_set _ _ _ _).trans (if_pos rfl)
  · have hflag : (m.drawSprite x y rows).next.v Registers.flag =
        if (m.display.draw (m.memory.readBlock m.index rows.val) (m.v x).toNat
          (m.v y).toNat).collision then 1 else 0 :=
      (Registers.v_set _ _ _ _).trans (if_pos rfl)
    rw [hflag]
    rfl
  · intro hf hw
    refine cycle_of_step_ok hf ?_
    rw [step, hw, Instruction.decode?_encode_draw]
    exact hexecute

/-- A machine about to draw the glyph of zero at the column and the row that
the flag register holds, across both edges. -/
def cornered : Machine :=
  (powerOn 0 Profile.standard).run
    [.load [0x6F, 0x3E, 0xA0, 0x50, 0xDF, 0xF5], .cycle, .cycle]

/-- The glyph comes out around the corner, and the flag register, which
placed it, holds zero after it. -/
theorem execute_draw_cornered :
    let glyph : Instruction := .draw Registers.flag Registers.flag ⟨5, by decide⟩
    cornered.fault = none ∧ cornered.fetch = glyph.encode ∧
      cornered.v Registers.flag = 62 ∧
      ∃ n : Machine, cornered.cycle = (.ok (), n) ∧
        (∀ dot ∈ ([(63, 30), (0, 30), (0, 31), (1, 2)] : List (Fin 64 × Fin 32)),
          n.display.pixel dot.1 dot.2 = decide (dot ≠ (0, 31))) ∧
        n.v Registers.flag = 0 ∧ n.pc = 0x206 := by
  intro glyph
  obtain ⟨n, -, hpixel, hflag, hframe, hcycle⟩ :=
    execute_draw cornered Registers.flag Registers.flag ⟨5, by decide⟩
  have hbefore : cornered.fault = none ∧ cornered.fetch = glyph.encode ∧
      cornered.v Registers.flag = 62 ∧ cornered.pc + 2 = 0x206 := by decide +kernel
  have hdots : ∀ dot ∈ ([(63, 30), (0, 30), (0, 31), (1, 2)] : List (Fin 64 × Fin 32)),
      (decide (cornered.Covers Registers.flag Registers.flag ⟨5, by decide⟩ dot.1 dot.2) ^^
        cornered.display.pixel dot.1 dot.2) = decide (dot ≠ (0, 31)) := by decide +kernel
  have hclear : ¬∃ (px : Fin 64) (py : Fin 32),
      cornered.Covers Registers.flag Registers.flag ⟨5, by decide⟩ px py ∧
        cornered.display.pixel px py = true := by decide +kernel
  obtain ⟨hf, hw, hv, hpc⟩ := hbefore
  refine ⟨hf, hw, hv, n, hcycle hf hw, ?_, ?_, ?_⟩
  · intro dot hdot
    rw [hpixel, hdots dot hdot]
  · rw [hflag, if_neg hclear]
  · rw [hframe]
    exact hpc

end Machine

end Chip8
