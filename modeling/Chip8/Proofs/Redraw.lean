import Chip8.Proofs.Footprint
/-!
# What the redraw flag tells of the screen

While the redraw flag is down a machine `Shows` a picture: the one that
the front end took over last. An instruction that writes the screen raises
the flag, and every other action but a take-over and a reset leaves both
as they are (`Shows.act`), so the picture lasts along a history
(`Shows.run`). A reset does not last: it blanks the screen and lowers the
flag, whatever was taken over before (`reset_unseen`). The main result,
`display_of_redraw_eq_false`, says what the screen is in every case.
-/

namespace Chip8

namespace Machine

variable {m : Machine} {d : Display} {a : Action} {actions : List Action}

/-- With the redraw flag down, the screen is the given one. -/
def Shows (m : Machine) (d : Display) : Prop :=
  m.redraw = false → m.display = d

/-! ## One action -/

/-- Nothing but an instruction, a take-over and a reset touches the redraw
flag. -/
theorem redraw_act (ha : a ≠ .acknowledgeRedraw) (hr : a ≠ .reset)
    (hx : m.executed? a = none) : (m.act a).redraw = m.redraw := by
  cases a with
  | acknowledgeRedraw => exact absurd rfl ha
  | reset => exact absurd rfl hr
  | cycle =>
    obtain ⟨f, hf⟩ := act_cycle_of_executed?_eq_none hx
    rw [act_cycle, hf]
  | load program =>
    obtain ⟨memory, hm⟩ := act_load m program
    rw [hm]
  | _ => rfl

/-- **An instruction that changes the screen raises the redraw flag**, so
what a machine shows outlasts every action but a take-over and a reset. -/
theorem Shows.act (h : m.Shows d) (ha : a ≠ .acknowledgeRedraw) (hr : a ≠ .reset) :
    (m.act a).Shows d := by
  intro hdown
  cases hx : m.executed? a with
  | none =>
    rw [redraw_act ha hr hx] at hdown
    exact (sameCourse_act hr hx).display.trans (h hdown)
  | some i =>
    obtain ⟨-, -, -, hexecute⟩ := executed?_eq_some_iff.1 hx
    have hframed := framed_of_execute hexecute
    rw [hframed.redraw, Bool.or_eq_false_iff] at hdown
    obtain ⟨hscreen, hbefore⟩ := hdown
    have hdisplay := hframed.display
    rw [hscreen] at hdisplay
    exact (hdisplay.resolve_right Bool.false_ne_true).trans (h hbefore)

/-- What is taken over is shown. -/
theorem shows_acknowledgeRedraw (m : Machine) : (m.act .acknowledgeRedraw).Shows m.display :=
  fun _ => rfl

/-- A reset shows a blank screen. -/
theorem shows_reset (m : Machine) : (m.act .reset).Shows Display.blank := by
  rw [act_reset]
  exact fun _ => rfl

/-! ## Histories -/

/-- **What a machine shows lasts** until the screen is taken over again, or
is blank from a reset on. -/
theorem Shows.run (h : m.Shows d) (ha : Action.acknowledgeRedraw ∉ actions) :
    (m.run actions).Shows (if Action.reset ∈ actions then Display.blank else d) := by
  induction actions generalizing m d with
  | nil => exact h
  | cons a actions ih =>
    rw [List.mem_cons, not_or] at ha
    by_cases hr : a = .reset
    · subst hr
      have hrest := ih (shows_reset m) ha.2
      rw [ite_self] at hrest
      rwa [if_pos List.mem_cons_self, run_cons]
    · have hrest := ih (h.act (fun e => ha.1 e.symm) hr) ha.2
      have hmem : Action.reset ∈ a :: actions ↔ Action.reset ∈ actions := by
        rw [List.mem_cons, or_iff_right fun e => hr e.symm]
      simpa only [run_cons, hmem] using hrest

/-- **The screen while the redraw flag is down.** Along every history from
power-on it is the screen as it was when the front end last took it over,
or blank if it never did, except that after a reset it is blank again until
the next take-over. -/
theorem display_of_redraw_eq_false (seed : UInt64) (profile : Profile) (actions : List Action)
    (h : ((powerOn seed profile).run actions).redraw = false) :
    (Action.acknowledgeRedraw ∉ actions →
        ((powerOn seed profile).run actions).display = Display.blank) ∧
      ∀ before after, actions = before ++ .acknowledgeRedraw :: after →
        Action.acknowledgeRedraw ∉ after →
        ((powerOn seed profile).run actions).display =
          if Action.reset ∈ after then Display.blank
          else ((powerOn seed profile).run before).display := by
  constructor
  · intro hnever
    have hblank : (powerOn seed profile).Shows Display.blank := fun _ => rfl
    have hrun := hblank.run hnever
    rw [ite_self] at hrun
    exact hrun h
  · rintro before after rfl hafter
    rw [run_append, run_cons] at h ⊢
    exact (shows_acknowledgeRedraw _).run hafter h

/-- A program that draws the glyph of zero and then sets a register. -/
def zeroInTheCorner : List UInt8 := [0xA0, 0x50, 0xD0, 0x05, 0x61, 0x01]

/-- The glyph is taken over, and is still the screen after another
instruction, a key and a timer period. -/
theorem display_of_redraw_eq_false_zeroInTheCorner :
    let before := [Action.load zeroInTheCorner, .cycle, .cycle]
    let after := [Action.press 0x3, .cycle, .timerPeriod]
    let m := (powerOn 0 Profile.standard).run before
    let n := (powerOn 0 Profile.standard).run (before ++ .acknowledgeRedraw :: after)
    n.redraw = false ∧ Action.acknowledgeRedraw ∉ after ∧ n.display = m.display ∧
      m.display.pixel 0 0 = true := by
  intro before after m n
  have hdown : n.redraw = false := by decide +kernel
  have hafter : Action.acknowledgeRedraw ∉ after := by decide
  have hreset : Action.reset ∉ after := by decide
  have hshown := (display_of_redraw_eq_false 0 Profile.standard _ hdown).2 before after rfl hafter
  rw [if_neg hreset] at hshown
  exact ⟨hdown, hafter, hshown, by decide +kernel⟩

/-- **A reset goes unseen**: it blanks a screen that was taken over and
leaves the redraw flag down, so that the front end goes on showing what is
there no more. -/
theorem reset_unseen :
    ¬∀ (seed : UInt64) (profile : Profile) (before after : List Action),
      Action.acknowledgeRedraw ∉ after →
      ((powerOn seed profile).run (before ++ .acknowledgeRedraw :: after)).redraw = false →
      ((powerOn seed profile).run (before ++ .acknowledgeRedraw :: after)).display =
        ((powerOn seed profile).run before).display := by
  intro h
  have hsame := h 1 Profile.standard [.load zeroInTheCorner, .cycle, .cycle] [.reset] (by decide)
    rfl
  have hpixel := congrArg (Display.pixel · 0 0) hsame
  revert hpixel
  decide +kernel

end Machine

end Chip8
