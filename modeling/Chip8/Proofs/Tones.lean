import Chip8.Proofs.Footprint
import Chip8.Proofs.Lockstep
import Chip8.Proofs.Schedule
/-!
# How often the machine sounds

A timer is set by its instruction and by a reset, which sets it to zero;
otherwise a timer period takes one from it, down to zero, and nothing else
moves it (`timer_act_of_not_sets`). So a run falls into stretches between
one setting of a timer and the next (`Stretches`), and what happens in a
stretch is told by what the timer begins with and the number of timer
periods (`toNat_timer_run`, `tones_of_leavesTimer`). What a clock reports
of tones is the sum over the stretches of the actions that its call comes
down to (`tones_of_stretches`).
-/

namespace Chip8

/-- One of the two timers. -/
inductive Timer
  | delay
  | sound
deriving DecidableEq

/-- The instruction that sets a timer to what a register holds. -/
def Timer.setter : Timer → Digit → Instruction
  | delay, x => .setDelay x
  | sound, x => .setSound x

namespace Machine

variable {m n : Machine} {t : Timer} {a : Action} {part actions : List Action}

/-- What a timer stands at. -/
def timer (m : Machine) : Timer → UInt8
  | .delay => m.registers.delay
  | .sound => m.registers.sound

/-- An action sets a timer: it executes the instruction for it, or is a
reset. -/
def Sets (m : Machine) (t : Timer) (a : Action) : Prop :=
  a = .reset ∨ ∃ x, m.executed? a = some (t.setter x)

/-- None of the actions sets a timer. -/
def LeavesTimer (m : Machine) (t : Timer) (part : List Action) : Prop :=
  .reset ∉ part ∧ ∀ x, t.setter x ∉ m.executed part

instance (m : Machine) (t : Timer) (part : List Action) : Decidable (m.LeavesTimer t part) :=
  inferInstanceAs (Decidable (_ ∧ _))

theorem leavesTimer_cons_iff :
    m.LeavesTimer t (a :: part) ↔ ¬m.Sets t a ∧ (m.act a).LeavesTimer t part := by
  simp only [LeavesTimer, Sets, executed_cons, List.mem_cons, List.mem_append,
    Option.mem_toList, not_or, not_exists, forall_and, eq_comm (a := Action.reset)]
  exact and_and_and_comm

/-! ## One action -/

/-- The instruction for a timer sets it to what its register holds. -/
theorem timer_act_of_setter {x : Digit} (hx : m.executed? a = some (t.setter x)) :
    (m.act a).timer t = m.v x := by
  obtain ⟨-, -, -, he⟩ := executed?_eq_some_iff.1 hx
  cases t with
  | delay => rw [← Except.ok.inj he]; rfl
  | sound => rw [← Except.ok.inj he]; rfl

/-- **Nothing but a timer period and what sets a timer moves it.** -/
theorem timer_act_of_not_sets (h : ¬m.Sets t a) (ha : a ≠ .timerPeriod) :
    (m.act a).timer t = m.timer t := by
  cases hx : m.executed? a with
  | some i =>
    obtain ⟨-, -, -, he⟩ := executed?_eq_some_iff.1 hx
    have hframed := framed_of_execute he
    cases t with
    | delay =>
      refine hframed.delay.resolve_right fun ⟨x, hi⟩ => h (.inr ⟨x, ?_⟩)
      exact hx.trans (congrArg some hi)
    | sound =>
      refine hframed.sound.resolve_right fun ⟨x, hi⟩ => h (.inr ⟨x, ?_⟩)
      exact hx.trans (congrArg some hi)
  | none =>
    cases a with
    | timerPeriod => exact absurd rfl ha
    | reset => exact absurd (.inl rfl) h
    | cycle =>
      obtain ⟨f, hf⟩ := act_cycle_of_executed?_eq_none hx
      rw [act_cycle, hf]
      rfl
    | load program =>
      obtain ⟨memory, hm⟩ := act_load m program
      rw [hm]
      rfl
    | _ => rfl

/-- A timer period takes one from a timer that is not at zero. -/
theorem toNat_timer_act_timerPeriod (m : Machine) (t : Timer) :
    ((m.act .timerPeriod).timer t).toNat = (m.timer t).toNat - 1 := by
  have hcount (b : UInt8) : (if 0 < b then b - 1 else 0).toNat = b.toNat - 1 := by
    have := b.toNat_lt
    split
    · next h =>
      have hpos : 0 < b.toNat := UInt8.lt_iff_toNat_lt.1 h
      rw [UInt8.toNat_sub]
      show (256 - 1 + b.toNat) % 256 = b.toNat - 1
      omega
    · next h =>
      have hzero : ¬0 < b.toNat := fun hpos => h (UInt8.lt_iff_toNat_lt.2 hpos)
      show 0 = b.toNat - 1
      omega
  cases t with
  | delay => exact hcount m.registers.delay
  | sound => exact hcount m.registers.sound

/-! ## A stretch -/

/-- **A timer that is left alone counts the periods down**, and stays at zero
once it is there. -/
theorem toNat_timer_run (h : m.LeavesTimer t part) :
    ((m.run part).timer t).toNat = (m.timer t).toNat - part.count .timerPeriod := by
  induction part generalizing m with
  | nil => rfl
  | cons a part ih =>
    obtain ⟨hset, hrest⟩ := leavesTimer_cons_iff.1 h
    rw [run_cons, ih hrest]
    by_cases ha : a = .timerPeriod
    · subst ha
      rw [toNat_timer_act_timerPeriod, List.count_cons_self]
      omega
    · rw [timer_act_of_not_sets hset ha, List.count_cons_of_ne ha]

/-- The tone that a reply tells of, if it is that to a timer period. -/
def toneOf? : Except Fault Reply → Option Bool
  | .ok (.tone on) => some on
  | _ => none

/-- The replies to the timer periods among the actions: whether each had a
tone. -/
def tones (m : Machine) (actions : List Action) : List Bool :=
  (m.replies actions).filterMap toneOf?

theorem tones_append (m : Machine) (before after : List Action) :
    m.tones (before ++ after) = m.tones before ++ (m.run before).tones after := by
  rw [tones, replies_append, List.filterMap_append]
  rfl

/-- A timer period has a tone as long as the sound timer is not at zero. -/
theorem tones_cons_timerPeriod (m : Machine) (part : List Action) :
    m.tones (.timerPeriod :: part) =
      decide (0 < (m.timer .sound).toNat) :: (m.act .timerPeriod).tones part := by
  have hsounding : m.isSounding = decide (0 < (m.timer .sound).toNat) :=
    decide_eq_decide.2 UInt8.lt_iff_toNat_lt
  rw [← hsounding]
  rfl

theorem tones_cons_of_ne (ha : a ≠ .timerPeriod) :
    m.tones (a :: part) = (m.act a).tones part := by
  have hreply : toneOf? (m.perform a).1 = none := by
    cases a with
    | timerPeriod => exact absurd rfl ha
    | load program =>
      simp only [perform]
      cases m.loadProgram program <;> rfl
    | cycle =>
      simp only [perform]
      rcases m.cycle with ⟨_ | ⟨⟩, n⟩ <;> rfl
    | _ => rfl
  exact List.filterMap_cons_none hreply

/-- **The periods of a stretch with a tone are the first ones**, as many as
the sound timer has at the beginning, if there are that many. -/
theorem tones_of_leavesTimer (h : m.LeavesTimer .sound part) :
    m.tones part =
      List.replicate (min (m.timer .sound).toNat (part.count .timerPeriod)) true ++
        List.replicate (part.count .timerPeriod - (m.timer .sound).toNat) false := by
  induction part generalizing m with
  | nil => rw [List.count_nil, Nat.min_zero, Nat.zero_sub]; rfl
  | cons a part ih =>
    obtain ⟨hset, hrest⟩ := leavesTimer_cons_iff.1 h
    by_cases ha : a = .timerPeriod
    · subst ha
      rw [tones_cons_timerPeriod, ih hrest, toNat_timer_act_timerPeriod, List.count_cons_self]
      -- one period more than in the rest, and one sounding more unless the timer is out
      rcases (m.timer .sound).toNat with _ | s
      · simp [List.replicate_succ]
      · simp [Nat.add_min_add_right, List.replicate_succ]
    · rw [tones_cons_of_ne ha, ih hrest, timer_act_of_not_sets hset ha, List.count_cons_of_ne ha]

/-! ## Runs in stretches -/

/-- **A run in stretches**: the actions, cut at each that sets a timer, and
for every stretch in between the machine at its beginning and its actions. -/
inductive Stretches (t : Timer) : Machine → List Action → List (Machine × List Action) → Prop
  /-- Nothing sets the timer any more. -/
  | last {m : Machine} {part : List Action} (h : m.LeavesTimer t part) :
      Stretches t m part [(m, part)]
  /-- An action sets the timer, and the next stretch begins after it. -/
  | next {m : Machine} {part : List Action} {a : Action} {actions : List Action}
      {stretches : List (Machine × List Action)} (h : m.LeavesTimer t part)
      (hset : (m.run part).Sets t a)
      (rest : Stretches t ((m.run part).act a) actions stretches) :
      Stretches t m (part ++ a :: actions) ((m, part) :: stretches)

theorem exists_stretches (t : Timer) (m : Machine) (actions : List Action) :
    ∃ stretches, Stretches t m actions stretches := by
  have hnil (m : Machine) : m.LeavesTimer t [] := ⟨nofun, nofun⟩
  induction actions generalizing m with
  | nil => exact ⟨_, .last (hnil m)⟩
  | cons a actions ih =>
    obtain ⟨stretches, hs⟩ := ih (m.act a)
    by_cases hset : m.Sets t a
    · have hwhole : Stretches t m ([] ++ a :: actions) ((m, []) :: stretches) :=
        .next (hnil m) hset hs
      exact ⟨_, hwhole⟩
    · -- the action belongs to the first stretch of those after it
      cases hs with
      | last h => exact ⟨_, .last (leavesTimer_cons_iff.2 ⟨hset, h⟩)⟩
      | @next _ part b rest later h hb hrest =>
        have hwhole : Stretches t m (a :: part ++ b :: rest) ((m, a :: part) :: later) :=
          .next (leavesTimer_cons_iff.2 ⟨hset, h⟩) hb hrest
        exact ⟨_, hwhole⟩

/-- In none of the stretches anything sets the timer. -/
theorem Stretches.leavesTimer {stretches : List (Machine × List Action)}
    (h : Stretches t m actions stretches) (hn : (n, part) ∈ stretches) :
    n.LeavesTimer t part := by
  induction h with
  | last h =>
    obtain ⟨rfl, rfl⟩ := Prod.mk.inj (List.mem_singleton.1 hn)
    exact h
  | next h _ _ ih =>
    rcases List.mem_cons.1 hn with hfirst | hlater
    · obtain ⟨rfl, rfl⟩ := Prod.mk.inj hfirst
      exact h
    · exact ih hlater

/-- The periods with a tone that stretches of the sound timer account for:
in each of them one for each timer period, as long as the timer lasts. -/
def sounding : List (Machine × List Action) → Nat
  | [] => 0
  | (n, part) :: stretches =>
    min (n.timer .sound).toNat (part.count .timerPeriod) + sounding stretches

theorem count_tones_of_leavesTimer (h : m.LeavesTimer .sound part) :
    (m.tones part).count true =
      min (m.timer .sound).toNat (part.count .timerPeriod) := by
  rw [tones_of_leavesTimer h, List.count_append, List.count_replicate_self,
    List.count_replicate, if_neg (by decide), Nat.add_zero]

/-- **The periods with a tone are those that the stretches account for.** -/
theorem Stretches.count_tones {stretches : List (Machine × List Action)}
    (h : Stretches .sound m actions stretches) :
    (m.tones actions).count true = sounding stretches := by
  induction h with
  | last h => exact count_tones_of_leavesTimer h
  | @next m part a actions stretches h hset _ ih =>
    have ha : a ≠ .timerPeriod := by
      rintro rfl
      rcases hset with hset | ⟨x, hx⟩
      · cases hset
      · cases hx
    rw [tones_append, tones_cons_of_ne ha, List.count_append, ih, count_tones_of_leavesTimer h,
      sounding]

/-- There is a reply to every timer period. -/
theorem length_tones (m : Machine) (actions : List Action) :
    (m.tones actions).length = actions.count .timerPeriod := by
  induction actions generalizing m with
  | nil => rfl
  | cons a actions ih =>
    by_cases ha : a = .timerPeriod
    · subst ha
      rw [tones_cons_timerPeriod, List.length_cons, ih, List.count_cons_self]
    · rw [tones_cons_of_ne ha, ih, List.count_cons_of_ne ha]

end Machine

/-! ## What a clock reports -/

/-- A tick tells of the timer periods among actions, and of those with a
tone. -/
structure Tick.TellsOf (t : Tick) (m : Machine) (actions : List Machine.Action) : Prop where
  timerPeriods : t.timerPeriods = actions.count .timerPeriod
  tones : t.tones = (m.tones actions).count true

/-- Ticks add up along with their actions. -/
theorem Tick.TellsOf.add {t u : Tick} {m : Machine} {before after : List Machine.Action}
    (h : t.TellsOf m before) (g : u.TellsOf (m.run before) after) :
    (t + u).TellsOf m (before ++ after) where
  timerPeriods := by rw [Tick.timerPeriods_add, h.timerPeriods, g.timerPeriods, List.count_append]
  tones := by rw [Tick.tones_add, h.tones, g.tones, Machine.tones_append, List.count_append]

namespace Clock

variable {c d : Clock} {m n : Machine} {t : Tick}

theorem timerPeriods_fst (m : Machine) (periods tones : Nat) :
    (m.timerPeriods periods tones).1 =
      tones + (m.tones (List.replicate periods .timerPeriod)).count true := by
  induction periods generalizing m tones with
  | zero => rfl
  | succ k ih =>
    have hfirst : m.tones (List.replicate (k + 1) .timerPeriod) =
        m.timerPeriod.1 :: m.timerPeriod.2.tones (List.replicate k .timerPeriod) := rfl
    rw [Machine.timerPeriods, ih, hfirst, List.count_cons]
    cases m.timerPeriod.1 <;> simp [Nat.add_assoc, Nat.add_comm 1]

/-- A tick that goes through tells of its timer periods. -/
theorem tellsOf_tick (h : c.tick m = (.ok t, d, n)) : t.TellsOf m (c.tickActions m) := by
  rcases hm : m.cycle with ⟨_ | ⟨⟩, m'⟩
  · rw [tick_of_cycle_error hm] at h
    cases h
  · rw [tick_of_cycle_ok hm] at h
    obtain ⟨rfl, -⟩ := h
    have hactions : c.tickActions m =
        .cycle :: List.replicate c.periodsDue .timerPeriod := by simp only [tickActions, hm]
    have hafter : m.act .cycle = m' := by rw [Machine.act_cycle, hm]
    have hne : Machine.Action.cycle ≠ .timerPeriod := by decide
    rw [hactions]
    constructor
    · rw [List.count_cons_of_ne hne, List.count_replicate_self]
    · rw [Machine.tones_cons_of_ne hne, hafter, timerPeriods_fst, Nat.zero_add]

/-- And so do several ticks that all go through. -/
theorem tellsOf_ticks {cost k : Nat} {total : Tick}
    (h : c.ticks m cost total k = (.ok t, d, n)) :
    ∃ u, t = total + u ∧ u.TellsOf m (c.ticksActions m k) := by
  induction k generalizing c m total with
  | zero =>
    obtain ⟨rfl, -⟩ := h
    exact ⟨0, (Tick.add_zero t).symm, rfl, rfl⟩
  | succ k ih =>
    rw [ticks, tick_spend] at h
    have hfirst := machine_tick c m
    rcases htick : c.tick m with ⟨_ | u, c', m'⟩
    · rw [htick] at h
      cases h
    · rw [htick] at h hfirst
      obtain ⟨v, rfl, hv⟩ := ih h
      -- the clock has paid for the tick, which the actions after it do not show
      rw [ticksActions_spend, show m' = m.run (c.tickActions m) from hfirst] at hv
      refine ⟨u + v, Tick.add_assoc _ _ _, ?_⟩
      rw [ticksActions, htick]
      exact (tellsOf_tick htick).add (hfirst ▸ hv)

end Clock

namespace Console

variable {s s' : Console} {c : Command} {t : Tick}

/-- What a command of the clock reports, if it goes through, tells of the
actions that the command comes down to. -/
theorem tellsOf_perform (h : s.perform c = (.ok (.ticked t), s')) :
    t.TellsOf s.machine (s.actions c) := by
  have hticked {r : Except Fault Tick × Clock × Machine}
      (hr : ofTicks r = (.ok (.ticked t), s')) : r.1 = .ok t := by
    obtain ⟨_ | u, d, n⟩ := r
    · cases hr
    · cases hr
      rfl
  obtain ⟨m, k⟩ := s
  cases c with
  | machine a =>
    rw [perform] at h
    rcases hm : m.perform a with ⟨_ | r, n⟩ <;> rw [hm] at h <;> cases h
  | tick => exact Clock.tellsOf_tick (Prod.ext (hticked h) rfl)
  | runSteps steps =>
    obtain ⟨u, hu, htells⟩ := Clock.tellsOf_ticks (Prod.ext (hticked h) rfl)
    rw [Tick.zero_add] at hu
    exact hu ▸ htells
  | runFor time =>
    rw [perform, Clock.runFor, Clock.payTicks_eq] at h
    obtain ⟨u, hu, htells⟩ := Clock.tellsOf_ticks (Prod.ext (hticked h) rfl)
    rw [Tick.zero_add] at hu
    rw [Clock.ticksActions_gain] at htells
    exact hu ▸ htells
  | _ => cases h

/-- **Sound is accounted for along every run.** Take any machine and any
actions, and cut them wherever a timer is set: by a reset, or by its
instruction, which gives it what a register holds. In every stretch in
between the timer ends up with what it began with less the timer periods, or
at zero. Of the timer periods in a stretch of the sound timer those with a
tone are as many as the timer began with, or all of them if there are fewer,
and they are the first ones.

A machine driven by clocks goes through the actions that its commands come
down to. So the tones that a clock reports, whenever a call goes through,
are the sum over the stretches of that call, and never more than the timer
periods that it reports. -/
theorem tones_of_stretches :
    (∀ (m : Machine) (t : Timer) (actions : List Machine.Action),
      (∃ stretches, Machine.Stretches t m actions stretches) ∧
      ∀ stretches, Machine.Stretches t m actions stretches →
        ∀ n part, (n, part) ∈ stretches →
          ((n.run part).timer t).toNat = (n.timer t).toNat - part.count .timerPeriod) ∧
    (∀ (m : Machine) (t : Timer) (a : Machine.Action) (x : Digit),
      m.executed? a = some (t.setter x) → (m.act a).timer t = m.v x) ∧
    (∀ (m : Machine) (actions : List Machine.Action) stretches,
      Machine.Stretches .sound m actions stretches →
      (m.tones actions).count true = Machine.sounding stretches ∧
      ∀ n part, (n, part) ∈ stretches →
        let sounding := min (n.timer .sound).toNat (part.count .timerPeriod)
        n.tones part = List.replicate sounding true ++
            List.replicate (part.count .timerPeriod - sounding) false ∧
          ((n.run part).timer .sound).toNat = (n.timer .sound).toNat - sounding) ∧
    (∀ (s : Console) (commands : List Command),
      (s.run commands).machine = s.machine.run (s.runActions commands)) ∧
    ∀ (s s' : Console) (c : Command) (t : Tick), s.perform c = (.ok (.ticked t), s') →
      ∀ stretches, Machine.Stretches .sound s.machine (s.actions c) stretches →
        t.tones = Machine.sounding stretches ∧ t.tones ≤ t.timerPeriods := by
  refine ⟨fun m t actions => ⟨Machine.exists_stretches t m actions, ?_⟩,
    fun m t a x => Machine.timer_act_of_setter, ?_, machine_run, ?_⟩
  · intro stretches hs n part hn
    exact Machine.toNat_timer_run (hs.leavesTimer hn)
  · intro m actions stretches hs
    refine ⟨hs.count_tones, fun n part hn => ?_⟩
    have hleaves := hs.leavesTimer hn
    have hsilent : part.count .timerPeriod - (n.timer .sound).toNat =
        part.count .timerPeriod - min (n.timer .sound).toNat (part.count .timerPeriod) := by
      omega
    have htones := Machine.tones_of_leavesTimer hleaves
    rw [hsilent] at htones
    refine ⟨htones, ?_⟩
    rw [Machine.toNat_timer_run hleaves]
    omega
  · intro s s' c t h stretches hs
    have htells := tellsOf_perform h
    have hle : t.tones ≤ t.timerPeriods := by
      rw [htells.tones, htells.timerPeriods, ← Machine.length_tones s.machine]
      exact List.count_le_length
    exact ⟨htells.tones.trans hs.count_tones, hle⟩

/-- A program that sounds for three timer periods and, from its fourth
instruction on, for two. -/
def twoTones : List UInt8 :=
  [0x60, 0x03, 0xF0, 0x18, 0x61, 0x02, 0xF1, 0x18, 0x12, 0x08]

/-- Five instructions with two timer periods each: the first tone has four
periods to run out in, the second is cut short by none. Five of the ten
periods sound. -/
theorem tones_of_stretches_twoTones :
    let m := (Machine.powerOn 0 Profile.standard).act (.load twoTones)
    let s : Console := ⟨m, Clock.withRates 1 2⟩
    let silent := [Machine.Action.cycle, .timerPeriod, .timerPeriod]
    let part := [Machine.Action.timerPeriod, .timerPeriod, .cycle, .timerPeriod, .timerPeriod]
    let m₁ := (m.run silent).act .cycle
    let m₂ := (m₁.run part).act .cycle
    let stretches := [(m, silent), (m₁, part), (m₂, part)]
    Machine.Stretches .sound m (s.actions (.runSteps 5)) stretches ∧
      (m.run silent).executed? .cycle = some (Timer.sound.setter 0x0) ∧
      m₁.timer .sound = 3 ∧
      m₁.tones part = [true, true, true, false] ∧ (m₁.run part).timer .sound = 0 ∧
      s.perform (.runSteps 5) = (.ok (.ticked ⟨5, 10, 5⟩), s.act (.runSteps 5)) ∧
      5 = Machine.sounding stretches ∧ 5 ≤ 10 := by
  intro m s silent part m₁ m₂ stretches
  obtain ⟨hactions, hsilent, hfirst, hpart, hsecond, hlast⟩ :
      s.actions (.runSteps 5) = silent ++ .cycle :: (part ++ .cycle :: part) ∧
        m.LeavesTimer .sound silent ∧
        (m.run silent).executed? .cycle = some (Timer.sound.setter 0x0) ∧
        m₁.LeavesTimer .sound part ∧
        (m₁.run part).executed? .cycle = some (Timer.sound.setter 0x1) ∧
        m₂.LeavesTimer .sound part := by
    decide +kernel
  have hs : Machine.Stretches .sound m (s.actions (.runSteps 5)) stretches := by
    rw [hactions]
    have hrest : Machine.Stretches .sound m₁ (part ++ .cycle :: part) [(m₁, part), (m₂, part)] :=
      .next hpart (.inr ⟨0x1, hsecond⟩) (.last hlast)
    exact .next hsilent (.inr ⟨0x0, hfirst⟩) hrest
  have hreply : (s.perform (.runSteps 5)).1 = .ok (.ticked ⟨5, 10, 5⟩) := by decide +kernel
  have hperform : s.perform (.runSteps 5) =
      (.ok (.ticked ⟨5, 10, 5⟩), s.act (.runSteps 5)) := Prod.ext hreply rfl
  obtain ⟨-, hsetter, hsound, -, hclock⟩ := tones_of_stretches
  have hthree : m₁.timer .sound = 3 :=
    (hsetter (m.run silent) .sound .cycle 0x0 hfirst).trans (by decide +kernel)
  have htones := (hsound m _ _ hs).2 m₁ part (by simp [stretches])
  rw [hthree] at htones
  obtain ⟨hsum, hle⟩ := hclock s _ _ _ hperform stretches hs
  exact ⟨hs, hfirst, hthree, htones.1, UInt8.toNat_inj.1 htones.2, hperform, hsum, hle⟩

end Console

end Chip8
