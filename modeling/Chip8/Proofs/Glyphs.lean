import Mathlib.Data.List.GetD
import Chip8.Proofs.MemoryHistory
import Chip8.Proofs.Sprites
/-!
# The font and its glyphs

A reset lays the rows of the glyphs side by side in low memory, and a
register's lower digit is multiplied out to the place of its glyph: both
speak of the same cells (`Font.rowAt_glyph`). No load reaches them
(`get_act_load_of_holds`), so the font stays until an instruction writes
over it (`FontIntact.run`), and as long as it is there a drawing of five
rows draws the glyph (`pixel_drawSprite_of_fontIntact`).
-/

namespace Chip8

namespace Font

/-- A cell is one of those that hold the font. -/
def Holds (cell : Address) : Prop :=
  0x050 ≤ cell.val ∧ cell.val < 0x0A0

instance (cell : Address) : Decidable (Holds cell) :=
  inferInstanceAs (Decidable (_ ∧ _))

/-- The byte that a cell holds before anything is put into it: a row of a
glyph in a cell of the font, five rows to the glyph, and zero in any other. -/
def rowAt (cell : Address) : UInt8 :=
  if Holds cell then
    (glyph (Digit.ofByte (UInt8.ofNat ((cell.val - 0x050) / 5)))).getD ((cell.val - 0x050) % 5) 0
  else 0

theorem getD_image (k : Nat) (h : k < 80) :
    image.getD k 0 = (glyph (Digit.ofByte (UInt8.ofNat (k / 5)))).getD (k % 5) 0 := by
  revert k
  decide

/-- The glyph of a digit in its five cells. -/
theorem rowAt_glyph {cell : Address} (d : Digit) {row : Nat} (h : row < 5)
    (hcell : cell.val = 0x050 + 5 * d.val + row) :
    Holds cell ∧ rowAt cell = (glyph d).getD row 0 := by
  have hd := d.isLt
  have hholds : Holds cell := by
    rw [Holds]
    omega
  have hdigit : Digit.ofByte (UInt8.ofNat ((cell.val - 0x050) / 5)) = d := by
    apply Fin.ext
    rw [Digit.val_ofByte, UInt8.toNat_ofNat']
    omega
  have hrow : (cell.val - 0x050) % 5 = row := by omega
  exact ⟨hholds, by rw [rowAt, if_pos hholds, hdigit, hrow]⟩

/-- The glyph of the lower digit of a byte, drawn at a column and a row, has
a dot for a pixel: the pixel lies, around the edges, less than five rows and
less than eight columns past that place, and its bit in the glyph's row is
set. -/
def HasDot (b x y : UInt8) (px py : Nat) : Prop :=
  let row := Display.past 32 y.toNat py
  let column := Display.past 64 x.toNat px
  row < 5 ∧ column < 8 ∧
    ((glyph (Digit.ofByte b)).getD row 0).toNat.testBit (7 - column) = true

instance (b x y : UInt8) (px py : Nat) : Decidable (HasDot b x y px py) :=
  inferInstanceAs (Decidable (_ ∧ _ ∧ _))

end Font

namespace Machine

variable {m n : Machine} {a : Action} {i : Instruction} {cell : Address}
  {actions : List Action}

/-- What memory holds after power-on. -/
theorem get_powerOn (seed : UInt64) (profile : Profile) (cell : Address) :
    (powerOn seed profile).memory.cells.get cell = Font.rowAt cell := by
  have hmemory : (powerOn seed profile).memory =
      Memory.blank.writeBlock Font.start Font.image := rfl
  have hblank : Memory.blank.cells.get cell = 0 := Buffer.get_blank cell
  have hstart : Font.start.toNat = 0x050 := rfl
  have hlength : Font.image.length = 80 := rfl
  rw [hmemory, Memory.get_writeBlock _ (by rw [hstart, hlength]; decide), hblank, hstart,
    Font.rowAt]
  by_cases hlow : 0x050 ≤ cell.val
  · by_cases hhigh : cell.val < 0x0A0
    · rw [if_pos hlow, if_pos ⟨hlow, hhigh⟩, Font.getD_image _ (by omega)]
    · rw [if_pos hlow, if_neg fun h => hhigh h.2, List.getD_eq_default _ _ (by omega)]
  · rw [if_neg hlow, if_neg fun h => hlow h.1]

/-- The font is in memory, every row of it. -/
def FontIntact (m : Machine) : Prop :=
  ∀ cell, Font.Holds cell → m.memory.cells.get cell = Font.rowAt cell

/-- No instruction of a history writes into the font. -/
def SparesFont (m : Machine) (actions : List Action) : Prop :=
  ∀ cell, Font.Holds cell → cell ∉ m.written actions

/-- It is enough to look at the eighty cells of the font. -/
theorem sparesFont_iff :
    m.SparesFont actions ↔ ∀ k : Fin 80, Fin.ofNat 4096 (0x050 + k.val) ∉ m.written actions := by
  constructor
  · intro h k
    refine h _ ?_
    rw [Font.Holds, Fin.val_ofNat]
    omega
  · rintro h cell ⟨hlow, hhigh⟩
    have hcell : Fin.ofNat 4096 (0x050 + (cell.val - 0x050)) = cell := by
      apply Fin.ext
      rw [Fin.val_ofNat]
      omega
    rw [← hcell]
    exact h ⟨cell.val - 0x050, by omega⟩

instance (m : Machine) (actions : List Action) : Decidable (m.SparesFont actions) :=
  decidable_of_iff _ sparesFont_iff.symm

/-- A history without a cycle spares it. -/
theorem sparesFont_of_cycle_not_mem (h : Action.cycle ∉ actions) : m.SparesFont actions := by
  intro cell _
  induction actions generalizing m with
  | nil => exact id
  | cons a actions ih =>
    rw [List.mem_cons, not_or] at h
    rintro (⟨i, hi, -⟩ | hw)
    · rw [executed?_of_ne_cycle fun e => h.1 e.symm] at hi
      cases hi
    · exact ih h.2 hw

theorem fontIntact_powerOn (seed : UInt64) (profile : Profile) :
    (powerOn seed profile).FontIntact :=
  fun cell _ => get_powerOn seed profile cell

/-- **A load never writes into the font**, which lies below program memory. -/
theorem get_act_load_of_holds (m : Machine) (program : List UInt8) (h : Font.Holds cell) :
    (m.act (.load program)).memory.cells.get cell = m.memory.cells.get cell := by
  have hnone : Write.last? (m.writesOf (.load program)) cell = none := by
    cases hl : m.loadProgram program with
    | error f => simp only [writesOf, hl, Write.last?_nil]
    | ok loaded =>
      have hfits := (of_loadProgram_eq_ok hl).1
      simp only [writesOf, hl]
      refine Write.last?_ofBlock_eq_none ?_
      rintro ⟨k, hk, rfl⟩
      have hstart : Registers.programStart.toNat = 0x200 := rfl
      have hval : (Address.ofWord (Registers.programStart + UInt16.ofNat k)).val = 0x200 + k := by
        rw [Address.val_ofWord, UInt16.toNat_add, UInt16.toNat_ofNat', hstart]
        omega
      have hhigh := h.2
      rw [hval] at hhigh
      omega
  rw [get_act_load, hnone, Option.getD_none]

/-- What an action does to the font if its instruction spares it. -/
theorem get_act_of_holds (ha : a ≠ .reset) (h : Font.Holds cell)
    (hx : ∀ i ∈ m.executed? a, ¬i.WritesCell m.index cell) :
    (m.act a).memory.cells.get cell = m.memory.cells.get cell := by
  cases a with
  | reset => exact absurd rfl ha
  | load program => exact get_act_load_of_holds m program h
  | cycle =>
    cases hi : m.executed? .cycle with
    | none =>
      obtain ⟨f, hf⟩ := act_cycle_of_executed?_eq_none hi
      rw [act_cycle, hf]
    | some i =>
      obtain ⟨-, -, -, hexecute⟩ := executed?_eq_some_iff.1 hi
      exact ((framed_of_execute hexecute).memory cell).resolve_right (hx i hi)
  | _ => rfl

/-- **The font stays** until an instruction writes over it. -/
theorem FontIntact.act (h : m.FontIntact)
    (hx : ∀ i ∈ m.executed? a, ∀ cell, Font.Holds cell → ¬i.WritesCell m.index cell) :
    (m.act a).FontIntact := by
  intro cell hcell
  by_cases ha : a = .reset
  · rw [ha, act_reset]
    exact get_powerOn m.seed m.profile cell
  · rw [get_act_of_holds ha hcell fun i hi => hx i hi cell hcell, h cell hcell]

theorem FontIntact.run (h : m.FontIntact) (hs : m.SparesFont actions) :
    (m.run actions).FontIntact := by
  induction actions generalizing m with
  | nil => exact h
  | cons a actions ih =>
    have hfirst := h.act (a := a) fun i hi cell hcell hw =>
      hs cell hcell (Set.mem_union_left _ ⟨i, hi, hw⟩)
    exact ih hfirst fun cell hcell hw => hs cell hcell (Set.mem_union_right _ hw)

/-! ## Drawing a glyph -/

/-- An instruction takes a machine to another: it goes through, and so does
the cycle that finds it at the program counter. -/
def Executes (m : Machine) (i : Instruction) (n : Machine) : Prop :=
  m.execute i = .ok n ∧
    (m.fault = none → Instruction.decode? m.fetch = some i → m.cycle = (.ok (), n))

theorem executes_of_execute (h : m.execute i = .ok n) : m.Executes i n :=
  ⟨h, fun hf hi => cycle_of_step_ok hf (step_eq_ok_iff.2 ⟨i, hi, h⟩)⟩

/-- With the font in memory and the index register at a glyph, a drawing of
five rows has the dots of the glyph. -/
theorem covers_iff_hasDot {b : UInt8} (h : m.FontIntact) (hindex : m.index = Font.glyphAddress b)
    (x y : Digit) (px py : Nat) :
    m.Covers x y ⟨5, by decide⟩ px py ↔ Font.HasDot b (m.v x) (m.v y) px py := by
  have haddress := Font.toNat_glyphAddress b
  have hd := (Digit.ofByte b).isLt
  rw [Font.height] at haddress
  refine and_congr_right fun hrow => and_congr_right fun _ => ?_
  have hcell : (m.index.toNat + Display.past 32 (m.v y).toNat py) % 4096 =
      0x050 + 5 * (Digit.ofByte b).val + Display.past 32 (m.v y).toNat py := by
    rw [hindex]
    omega
  let cell : Address := ⟨_, Nat.mod_lt (m.index.toNat + Display.past 32 (m.v y).toNat py)
    (by decide : 0 < 4096)⟩
  obtain ⟨hholds, hbyte⟩ : Font.Holds cell ∧ Font.rowAt cell = _ :=
    Font.rowAt_glyph (Digit.ofByte b) hrow hcell
  rw [h _ hholds, hbyte]

/-- **A glyph is drawn dot for dot** while the font is in memory. -/
theorem pixel_drawSprite_of_fontIntact {b : UInt8} (h : m.FontIntact)
    (hindex : m.index = Font.glyphAddress b) (x y : Digit) (px : Fin 64) (py : Fin 32) :
    (m.drawSprite x y ⟨5, by decide⟩).next.display.pixel px py =
      (decide (Font.HasDot b (m.v x) (m.v y) px py) ^^ m.display.pixel px py) := by
  have hpixel : (m.drawSprite x y ⟨5, by decide⟩).display.pixel px py =
      (decide (m.Covers x y ⟨5, by decide⟩ px py) ^^ m.display.pixel px py) :=
    pixel_drawSprite px.isLt py.isLt
  simp only [covers_iff_hasDot h hindex] at hpixel
  exact hpixel

/-- With the font in memory, the instruction that points at a glyph and a
drawing of five rows later on draw that glyph, if the index register and the
two registers of the place are left alone in between. -/
theorem exists_drawn_of_fontIntact (h : m.FontIntact) (x : Digit) :
    ∃ n : Machine, m.Executes (.pointGlyph x) n ∧
      ∀ (between : List Action) (a b : Digit), n.SparesFont between →
        (n.run between).index = n.index → (n.run between).v a = m.v a →
        (n.run between).v b = m.v b →
        ∃ l : Machine, (n.run between).Executes (.draw a b ⟨5, by decide⟩) l ∧
          ∀ (px : Fin 64) (py : Fin 32), l.display.pixel px py =
            (decide (Font.HasDot (m.v x) (m.v a) (m.v b) px py) ^^
              (n.run between).display.pixel px py) := by
  let n := (m.setIndex (Font.glyphAddress (m.v x))).next
  have hpointed : n.FontIntact := h
  refine ⟨n, executes_of_execute rfl, fun between a b hspared hindex ha hb => ?_⟩
  have hintact := hpointed.run hspared
  refine ⟨((n.run between).drawSprite a b ⟨5, by decide⟩).next, executes_of_execute rfl,
    fun px py => ?_⟩
  rw [pixel_drawSprite_of_fontIntact hintact hindex, ha, hb]

/-- **Memory is its write history, and the font in it can be drawn.** Switch
a machine on with any seed and profile, under any clock, and give it any
commands. After them each memory cell holds the byte most recently put into
it, since the latest reset, by a program that was loaded or by an
instruction that stores digits or registers; if there was none it holds a
row of the font or zero. No load ever changes a cell of the font. And if no
instruction executed since the reset has written there, then pointing at the
glyph of a register and drawing five rows switches over exactly the pixels
for which that glyph has a dot, whatever else is done between the two, so
long as it leaves the font, the index register and the place alone. -/
theorem memory_of_writes (seed : UInt64) (profile : Profile) (clock : Clock)
    (commands : List Console.Command) :
    let on := powerOn seed profile
    let actions := sinceReset (Console.runActions ⟨on, clock⟩ commands)
    let m := (Console.run ⟨on, clock⟩ commands).machine
    m = on.run actions ∧
      (∀ cell, m.memory.cells.get cell =
        (Write.last? (on.writes actions) cell).getD (Font.rowAt cell)) ∧
      (∀ (n : Machine) (program : List UInt8) (cell : Address), Font.Holds cell →
        (n.act (.load program)).memory.cells.get cell = n.memory.cells.get cell) ∧
      (on.SparesFont actions → ∀ x, ∃ n : Machine, m.Executes (.pointGlyph x) n ∧
        ∀ (between : List Action) (a b : Digit), n.SparesFont between →
          (n.run between).index = n.index → (n.run between).v a = m.v a →
          (n.run between).v b = m.v b →
          ∃ l : Machine, (n.run between).Executes (.draw a b ⟨5, by decide⟩) l ∧
            ∀ (px : Fin 64) (py : Fin 32), l.display.pixel px py =
              (decide (Font.HasDot (m.v x) (m.v a) (m.v b) px py) ^^
                (n.run between).display.pixel px py)) := by
  intro on actions m
  have hm : m = on.run actions := by
    rw [run_sinceReset]
    exact Console.machine_run ⟨on, clock⟩ commands
  refine ⟨hm, fun cell => ?_, fun n program cell => get_act_load_of_holds n program,
    fun hspared => ?_⟩
  · rw [hm, get_run (reset_not_mem_sinceReset _), get_powerOn]
  · have hintact := (fontIntact_powerOn seed profile).run hspared
    rw [hm]
    exact exists_drawn_of_fontIntact hintact

/-- A program that stores the digits of forty-two, and draws the glyph of its
lower hexadecimal digit at the forty-third column and row. -/
def scribe : List UInt8 := [0x60, 0x2A, 0xA3, 0x00, 0xF0, 0x33, 0xF0, 0x29, 0xD0, 0x05]

/-- A console just switched on. -/
def beforeScribe : Console := ⟨powerOn 0 Profile.standard, Clock.ofRate 500⟩

/-- The program up to the instruction that points at the glyph. -/
def scribbling : List Console.Command :=
  [.machine (.load scribe), .machine .cycle, .machine .cycle, .machine .cycle]

/-- The machine in front of that instruction. -/
def scribbled : Machine :=
  (beforeScribe.run scribbling).machine

/-- The machine after it, with a key pressed and a timer period over. -/
def pointed : Machine :=
  (scribbled.setIndex (Font.glyphAddress (scribbled.v Digit.zero))).next.run
    [.press 0x3, .timerPeriod]

/-- The digits are stored outside the font, and the glyph is drawn from it. -/
theorem memory_of_writes_scribe :
    beforeScribe.machine.SparesFont (sinceReset (beforeScribe.runActions scribbling)) ∧
      scribbled.memory.read 0x302 = 2 ∧
      ∃ n l : Machine, scribbled.cycle = (.ok (), n) ∧
        (n.run [.press 0x3, .timerPeriod]).cycle = (.ok (), l) ∧
        l.display.pixel 42 10 = true ∧ l.display.pixel 43 11 = false := by
  obtain ⟨hspared, hwritten⟩ :
      beforeScribe.machine.SparesFont (sinceReset (beforeScribe.runActions scribbling)) ∧
      (Write.last? (beforeScribe.machine.writes (sinceReset (beforeScribe.runActions scribbling)))
        (Address.ofWord 0x302)).getD (Font.rowAt (Address.ofWord 0x302)) = 2 := by
    decide +kernel
  obtain ⟨hfault, hpoint, hindex, hplace, hfault', hdraw, hlit, hunlit⟩ :
      scribbled.fault = none ∧
      Instruction.decode? scribbled.fetch = some (.pointGlyph Digit.zero) ∧
      pointed.index = Font.glyphAddress (scribbled.v Digit.zero) ∧
      pointed.v Digit.zero = scribbled.v Digit.zero ∧
      pointed.fault = none ∧
      Instruction.decode? pointed.fetch = some (.draw Digit.zero Digit.zero ⟨5, by decide⟩) ∧
      (decide (Font.HasDot (scribbled.v Digit.zero) (scribbled.v Digit.zero)
        (scribbled.v Digit.zero) 42 10) ^^ pointed.display.pixel 42 10) = true ∧
      (decide (Font.HasDot (scribbled.v Digit.zero) (scribbled.v Digit.zero)
        (scribbled.v Digit.zero) 43 11) ^^ pointed.display.pixel 43 11) = false := by
    decide +kernel
  have hscribbled : (Console.run ⟨powerOn 0 Profile.standard, Clock.ofRate 500⟩
      scribbling).machine = scribbled := rfl
  obtain ⟨-, hmemory, -, hglyph⟩ :=
    memory_of_writes 0 Profile.standard (Clock.ofRate 500) scribbling
  rw [hscribbled] at hmemory hglyph
  obtain ⟨n, ⟨hexecute, hcycle⟩, hdrawn⟩ := hglyph hspared Digit.zero
  obtain rfl : (scribbled.setIndex (Font.glyphAddress (scribbled.v Digit.zero))).next = n :=
    Except.ok.inj hexecute
  obtain ⟨l, ⟨-, hcycle'⟩, hpixel⟩ := hdrawn [.press 0x3, .timerPeriod] Digit.zero Digit.zero
    (sparesFont_of_cycle_not_mem (by decide)) hindex hplace hplace
  refine ⟨hspared, ?_, _, l, hcycle hfault hpoint, hcycle' hfault' hdraw,
    (hpixel 42 10).trans hlit, (hpixel 43 11).trans hunlit⟩
  rw [Memory.read, hmemory]
  exact hwritten

end Machine

end Chip8
