import Mathlib.Data.Nat.Bitwise
import Chip8.Proofs.Cells
import Chip8.Proofs.Sprites
/-!
# Sprites in checked cells

The loops that draw a sprite, with every place on the screen computed and
checked, against the dots of the sprite switched over one after the other.
A column is one of eight, so its bit is there to be tested, and the place
of a dot is taken around the edges before it is looked up.
-/

namespace Chip8

open Guarded

namespace Display

variable {x y : Nat} {line : UInt8}

/-! ## Pixels as bytes -/

theorem get_bytes (d : Display) (i : Fin 2048) :
    d.bytes.get i = if d.pixels.get i then 1 else 0 := by
  simp only [bytes, Buffer.get_eq_getElem, Vector.getElem_map]

/-- Every pixel is one or zero. -/
theorem get_bytes_eq_zero_or_one (d : Display) (i : Fin 2048) :
    d.bytes.get i = 0 ∨ d.bytes.get i = 1 := by
  rw [get_bytes]
  split
  · exact .inr rfl
  · exact .inl rfl

theorem bytes_blank : blank.bytes = Buffer.blank := by
  apply Buffer.ext_get
  intro i
  rw [get_bytes, blank, Buffer.get_blank, Buffer.get_blank]
  rfl

/-- Switching a pixel over is turning over its lowest bit. -/
theorem bytes_flip (d : Display) (x y : Nat) :
    (d.flip x y).bytes = d.bytes.put (place x y) (d.bytes.get (place x y) ^^^ 1) := by
  apply Buffer.ext_get
  intro i
  rw [Buffer.get_put, get_bytes, get_bytes, get_bytes, flip, Buffer.get_put, pixel]
  by_cases h : place x y = i
  · rw [if_pos h, if_pos h]
    cases d.pixels.get (place x y) <;> rfl
  · rw [if_neg h, if_neg h]

/-- A drawing in cells. -/
def Drawing.painting (s : Drawing) : Painting :=
  ⟨s.display.bytes, s.collision⟩

/-! ## One dot -/

/-- The bit of a column is set when the row has a dot there. -/
theorem and_shiftRight_eq_zero_iff {column : Nat} (h : column < 8) :
    line &&& 0x80 >>> UInt8.ofNat column = 0 ↔ line.toNat.testBit (7 - column) = false := by
  have hbit : (0x80 >>> UInt8.ofNat column : UInt8).toNat = 2 ^ (7 - column) := by
    have hall : ∀ c : Fin 8, (0x80 >>> UInt8.ofNat c.val : UInt8).toNat = 2 ^ (7 - c.val) := by
      decide
    exact hall ⟨column, h⟩
  rw [← UInt8.toNat_inj, UInt8.toNat_and, hbit, Nat.and_two_pow]
  cases line.toNat.testBit (7 - column) <;> simp

theorem plot?_painting (s : Drawing) (startX : UInt8) {y column : Nat} (h : column < 8) :
    s.painting.plot? startX (y % height) line column =
      some (if line.toNat.testBit (7 - column) = true
        then (s.plot (startX.toNat + column) y).painting else s.painting) := by
  have hshift : shiftRight? 0x80 column = some (0x80 >>> UInt8.ofNat column) := if_pos h
  rw [Painting.plot?, hshift, Option.bind_eq_bind, Option.bind_some]
  by_cases hdot : line.toNat.testBit (7 - column) = true
  · have hset : ¬line &&& 0x80 >>> UInt8.ofNat column = 0 := by
      rw [and_shiftRight_eq_zero_iff h, hdot]
      exact nofun
    have hx := startX.toNat_lt
    -- the place computed for the dot is the pixel's own, taken around the edges
    have hat : s.painting.frame.at? ((y % 32 * 64 + (startX.toNat + column) % 64 : Nat) : Int) =
        some (s.display.bytes.get (place (startX.toNat + column) y)) :=
      Buffer.at?_val s.display.bytes (place (startX.toNat + column) y)
    have hput : ∀ b, s.painting.frame.put?
        ((y % 32 * 64 + (startX.toNat + column) % 64 : Nat) : Int) b =
          some (s.display.bytes.put (place (startX.toNat + column) y) b) :=
      Buffer.put?_val s.display.bytes (place (startX.toNat + column) y)
    have hlit : (s.display.bytes.get (place (startX.toNat + column) y) == 1) =
        s.display.pixel (startX.toNat + column) y := by
      rw [get_bytes, pixel]
      cases s.display.pixels.get (place (startX.toNat + column) y) <;> rfl
    rw [if_neg hset, if_pos hdot, width, height]
    simp only [Option.bind_eq_bind]
    rw [fit?_of_le (by omega), Option.bind_some, fit?_of_le (by omega), Option.bind_some,
      fit?_of_le (by omega), Option.bind_some, hat, Option.bind_some, hput, Option.bind_some,
      ← bytes_flip, hlit]
    rfl
  · have hclear : line &&& 0x80 >>> UInt8.ofNat column = 0 := by
      rw [and_shiftRight_eq_zero_iff h]
      exact Bool.eq_false_iff.2 hdot
    rw [if_pos hclear, if_neg hdot]

/-! ## The rows of a sprite -/

theorem plotAll_append (s : Drawing) (x y : Nat) (dots rest : List (Nat × Nat)) :
    s.plotAll x y (dots ++ rest) = (s.plotAll x y dots).plotAll x y rest :=
  List.foldl_append

/-- Some of the eight columns of a row. -/
theorem foldlM_plot?_painting (s : Drawing) (startX line : UInt8) (y row : Nat)
    (columns : List Nat) (h : ∀ column ∈ columns, column < 8) :
    columns.foldlM (fun t column => Painting.plot? t startX ((y + row) % height) line column)
        s.painting =
      some (s.plotAll startX.toNat y ((columns.filter fun column =>
        line.toNat.testBit (7 - column)).map (·, row))).painting := by
  induction columns generalizing s with
  | nil => rfl
  | cons column columns ih =>
    have hrest := fun s => ih s fun c hc => h c (List.mem_cons_of_mem _ hc)
    rw [List.foldlM_cons, plot?_painting s startX (h column List.mem_cons_self),
      Option.bind_eq_bind, Option.bind_some]
    by_cases hdot : line.toNat.testBit (7 - column) = true
    · rw [if_pos hdot, hrest, List.filter_cons, if_pos hdot, List.map_cons]
      rfl
    · rw [if_neg hdot, hrest, List.filter_cons, if_neg hdot]

/-- One row of a sprite, if the row that it falls on can be computed. -/
theorem plotRows?_cons_painting (s : Drawing) (startX startY line : UInt8) {row : Nat}
    (lines : List UInt8) (h : startY.toNat + row < UInt64.size) :
    s.painting.plotRows? startX startY row (line :: lines) =
      (s.plotAll startX.toNat startY.toNat
        ((rowDots line).map (·, row))).painting.plotRows? startX startY (row + 1) lines := by
  have hrow := foldlM_plot?_painting s startX line startY.toNat row (List.range 8)
    fun column hc => List.mem_range.1 hc
  rw [Painting.plotRows?, fit?_of_lt h, Option.bind_eq_bind, Option.bind_some, hrow,
    Option.bind_eq_bind, Option.bind_some, rowDots]

/-- **Every dot of a sprite is painted inside the frame**, and the loops
come out as drawing its dots one after the other. -/
theorem plotRows?_painting (s : Drawing) (startX startY : UInt8) (row : Nat)
    {lines : List UInt8} (h : startY.toNat + (row + lines.length) ≤ UInt64.size) :
    s.painting.plotRows? startX startY row lines =
      some (s.plotAll startX.toNat startY.toNat (dotsFrom row lines)).painting := by
  induction lines generalizing s row with
  | nil => rfl
  | cons line lines ih =>
    rw [List.length_cons] at h
    rw [plotRows?_cons_painting s startX startY line lines (by omega), ih _ _ (by omega),
      dotsFrom, plotAll_append]

/-- A painting that comes out is that drawing, however long the sprite. -/
theorem eq_of_plotRows?_painting {s : Drawing} {startX startY : UInt8} {row : Nat}
    {lines : List UInt8} {t : Painting}
    (h : s.painting.plotRows? startX startY row lines = some t) :
    t = (s.plotAll startX.toNat startY.toNat (dotsFrom row lines)).painting := by
  induction lines generalizing s row with
  | nil => exact (Option.some.inj h).symm
  | cons line lines ih =>
    by_cases hfit : startY.toNat + row < UInt64.size
    · rw [plotRows?_cons_painting s startX startY line lines hfit] at h
      rw [dotsFrom, plotAll_append]
      exact ih h
    · rw [Painting.plotRows?, fit?_eq_none_iff.2 (Nat.not_lt.1 hfit)] at h
      cases h

end Display

namespace Machine

variable (m : Machine)

/-- A sprite of at most fifteen rows fits the buffer for it. -/
theorem slice?_sprite?_board {rows : Nat} (h : rows ≤ 15) :
    ∃ sprite, m.board.sprite? rows = some sprite ∧
      sprite.slice? 0 rows = some (m.memory.readBlock m.index rows) := by
  have hread : (fun row => m.board.read? (m.board.index + UInt16.ofNat row)) = fun row =>
      (pure (m.memory.read (m.index + UInt16.ofNat row)) : Option UInt8) := by
    funext row
    exact read?_board m _
  refine ⟨Vector.ofFn fun row => (m.memory.readBlock m.index rows).getD row.val 0, ?_, ?_⟩
  · rw [Board.sprite?, hread, List.mapM_pure]
    rfl
  · rw [Buffer.slice?, if_pos (by rw [tallest]; omega), Option.some.injEq, List.drop_zero]
    apply List.ext_getElem
    · simp [tallest, h]
    · intro k h₁ h₂
      simp only [List.getElem_take, Vector.getElem_toList, Vector.getElem_ofFn]
      exact List.getD_eq_getElem _ _ h₂

/-- **Drawing a sprite** stays inside the registers, the buffer for the
sprite and the frame. -/
@[simp] theorem drawSprite?_board (x y rows : Digit) :
    m.board.drawSprite? (Digit.toByte x) (Digit.toByte y) (Digit.toByte rows) =
      some (m.drawSprite x y rows).board := by
  have hrows : min (Digit.toByte rows).toNat tallest = rows.val := by
    rw [Digit.toNat_toByte, tallest]
    omega
  have hle : rows.val ≤ 15 := by omega
  obtain ⟨sprite, hsprite, hlines⟩ := slice?_sprite?_board m hle
  let drawing := m.display.draw (m.memory.readBlock m.index rows.val) (m.v x).toNat (m.v y).toNat
  have hfits : (m.v y).toNat + (0 + (m.memory.readBlock m.index rows.val).length) ≤
      UInt64.size := by
    have hy := (m.v y).toNat_lt
    rw [Memory.length_readBlock, UInt64.size]
    omega
  have hpainting : Painting.plotRows? ⟨m.display.bytes, false⟩ (m.v x) (m.v y) 0
      (m.memory.readBlock m.index rows.val) = some drawing.painting :=
    Display.plotRows?_painting ⟨m.display, false⟩ (m.v x) (m.v y) 0 hfits
  have hclear : m.board.setFlag? false = some (m.setV Registers.flag 0).board :=
    setFlag?_board m false
  have hframe : (m.setV Registers.flag 0).board.frame = m.display.bytes := rfl
  have hflag : (m.setV Registers.flag 0).board.raiseFlag? drawing.painting.collision =
      some (m.setV Registers.flag (if drawing.collision then 1 else 0)).board := by
    have htwice : ((m.setV Registers.flag 0).setV Registers.flag 1) = m.setV Registers.flag 1 :=
      congrArg (fun v => { m with registers := { m.registers with v := v } })
        (Buffer.put_put m.registers.v Registers.flag 0 1)
    have hcollision : drawing.painting.collision = drawing.collision := rfl
    rw [hcollision, Board.raiseFlag?]
    by_cases h : drawing.collision = true
    · rw [if_pos h, if_pos h, setFlag?_board, if_pos rfl, htwice]
    · rw [if_neg h, if_neg h]
  simp only [Board.drawSprite?, register?_board, Option.bind_eq_bind, Option.bind_some, hrows,
    hsprite, hclear, hlines, hframe, hpainting, hflag]
  rfl

end Machine

end Chip8
