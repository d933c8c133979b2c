import Chip8.Proofs.Calls
import Chip8.Proofs.Lockstep
/-!
# What a console learns of its machine

A clock decides by the replies of its machine how to go on, and reads
nothing else of it: whether a cycle failed, and whether a timer period had a
tone. So consoles with equal clocks whose machines reply alike ask the same
of them, give the same replies themselves and keep equal clocks
(`Console.replies_congr`). This carries what holds of machines in lockstep
over to the consoles that drive them.
-/

namespace Chip8

namespace Machine

variable {m n : Machine}

/-- Machines that reply alike to a history in two parts reply alike to the
first, and after it to the second. -/
theorem replies_append_congr {before after : List Action}
    (h : m.replies (before ++ after) = n.replies (before ++ after)) :
    m.replies before = n.replies before ∧
      (m.run before).replies after = (n.run before).replies after := by
  rw [replies_append, replies_append] at h
  exact List.append_inj h (by rw [length_replies, length_replies])

/-- The reply to a cycle tells how the cycle went. -/
theorem cycle_fst_congr {actions : List Action}
    (h : m.replies (.cycle :: actions) = n.replies (.cycle :: actions)) :
    m.cycle.1 = n.cycle.1 := by
  have hreply := (List.cons.inj h).1
  simp only [perform] at hreply
  rcases hm : m.cycle.1 with f | ⟨⟩ <;> rcases hn : n.cycle.1 with g | ⟨⟩ <;>
    rw [hm, hn] at hreply <;> cases hreply
  all_goals rfl

/-- The replies to timer periods tell how many had a tone. -/
theorem timerPeriods_fst_congr {periods : Nat} (tones : Nat)
    (h : m.replies (List.replicate periods .timerPeriod) =
      n.replies (List.replicate periods .timerPeriod)) :
    (m.timerPeriods periods tones).1 = (n.timerPeriods periods tones).1 := by
  induction periods generalizing m n tones with
  | zero => rfl
  | succ k ih =>
    obtain ⟨hreply, hrest⟩ := List.cons.inj h
    have htone : m.timerPeriod.1 = n.timerPeriod.1 := Reply.tone.inj (Except.ok.inj hreply)
    simp only [timerPeriods, htone]
    exact ih _ hrest

end Machine

namespace Clock

variable {m n : Machine}

/-- A clock asks the same of machines that reply alike, comes to the same
result with them and is left in the same state. -/
theorem tick_congr {c : Clock}
    (h : m.replies (c.tickActions m) = n.replies (c.tickActions m)) :
    c.tickActions m = c.tickActions n ∧ (c.tick m).1 = (c.tick n).1 ∧
      (c.tick m).2.1 = (c.tick n).2.1 := by
  have hcycle : m.cycle.1 = n.cycle.1 := by
    rw [tickActions] at h
    split at h <;> exact Machine.cycle_fst_congr h
  rcases hm : m.cycle with ⟨f | ⟨⟩, m'⟩ <;> rcases hn : n.cycle with ⟨g | ⟨⟩, n'⟩ <;>
    rw [hm, hn] at hcycle <;> cases hcycle
  · rw [tick_of_cycle_error hm, tick_of_cycle_error hn, tickActions, tickActions, hm, hn]
    exact ⟨rfl, rfl, rfl⟩
  · rw [tickActions, hm] at h
    rw [tick_of_cycle_ok hm, tick_of_cycle_ok hn, tickActions, tickActions, hm, hn]
    have hperiods := (List.cons.inj h).2
    rw [Machine.act_cycle, Machine.act_cycle, hm, hn] at hperiods
    refine ⟨rfl, ?_, rfl⟩
    rw [Machine.timerPeriods_fst_congr 0 hperiods]

/-- And so it does over several ticks. -/
theorem ticks_congr {c : Clock} (cost : Nat) (total : Tick) {steps : Nat}
    (h : m.replies (c.ticksActions m steps) = n.replies (c.ticksActions m steps)) :
    c.ticksActions m steps = c.ticksActions n steps ∧
      (c.ticks m cost total steps).1 = (c.ticks n cost total steps).1 ∧
      (c.ticks m cost total steps).2.1 = (c.ticks n cost total steps).2.1 := by
  induction steps generalizing c m n total with
  | zero => exact ⟨rfl, rfl, rfl⟩
  | succ steps ih =>
    obtain ⟨hfirst, hrest⟩ := Machine.replies_append_congr h
    obtain ⟨hactions, hresult, hclock⟩ := tick_congr hfirst
    have hm := machine_tick c m
    have hn := machine_tick c n
    rw [ticksActions, ticksActions, ticks, ticks, tick_spend, tick_spend, ← hactions]
    rw [← hm, hactions, ← hn] at hrest
    rcases htm : c.tick m with ⟨f | t, d, m'⟩ <;> rcases htn : c.tick n with ⟨g | u, e, n'⟩ <;>
      rw [htm, htn] at hresult hclock <;> cases hresult <;> cases hclock
    · exact ⟨rfl, rfl, rfl⟩
    · rw [htm, htn] at hrest
      -- the cost was taken before the tick, and is not read by the actions after it
      dsimp only at hrest ⊢
      rw [← ticksActions_spend d m' cost] at hrest
      obtain ⟨hlater, hticks⟩ := ih (c := d.spend cost) (total + t) hrest
      rw [ticksActions_spend, ticksActions_spend] at hlater
      rw [hlater]
      exact ⟨rfl, hticks⟩

end Clock

namespace Console

variable {s t : Console}

/-- The actions of a history may be cut anywhere. -/
theorem runActions_append (s : Console) (before after : List Command) :
    s.runActions (before ++ after) = s.runActions before ++ (s.run before).runActions after := by
  induction before generalizing s with
  | nil => rfl
  | cons c before ih => rw [List.cons_append, runActions, runActions, run_cons, ih,
      List.append_assoc]

/-- A command of consoles with equal clocks whose machines reply alike. -/
theorem perform_congr (hclock : s.clock = t.clock) {c : Command}
    (h : s.machine.replies (s.actions c) = t.machine.replies (s.actions c)) :
    s.actions c = t.actions c ∧ (s.perform c).1 = (t.perform c).1 ∧
      (s.act c).clock = (t.act c).clock := by
  obtain ⟨m, k⟩ := s
  obtain ⟨n, l⟩ := t
  obtain rfl : k = l := hclock
  cases c with
  | machine a =>
    have hreply := (List.cons.inj h).1
    refine ⟨rfl, ?_, rfl⟩
    simp only [perform]
    rw [hreply]
  | tick =>
    obtain ⟨hactions, hresult, hclock⟩ := Clock.tick_congr h
    refine ⟨hactions, ?_, hclock⟩
    simp only [perform, ofTicks]
    rw [hresult]
  | runSteps steps =>
    obtain ⟨hactions, hresult, hclock⟩ := Clock.ticks_congr 0 0 h
    refine ⟨hactions, ?_, hclock⟩
    simp only [perform, ofTicks, Clock.runSteps]
    rw [hresult]
  | runFor time =>
    rw [actions, ← Clock.ticksActions_gain k m time] at h
    obtain ⟨hactions, hresult, hclock⟩ := Clock.ticks_congr Elapsed.second 0 h
    rw [Clock.ticksActions_gain, Clock.ticksActions_gain] at hactions
    refine ⟨hactions, ?_, ?_⟩
    · simp only [perform, ofTicks, Clock.runFor, Clock.payTicks_eq]
      rw [hresult]
    · simp only [act, perform, ofTicks, Clock.runFor, Clock.payTicks_eq]
      exact hclock
  | setClock cpuRate timerRate => exact ⟨rfl, rfl, rfl⟩
  | useClock clock => exact ⟨rfl, rfl, rfl⟩
  | resetClock => exact ⟨rfl, rfl, rfl⟩

/-- **A console is decided by its clock and by the replies of its machine**:
with equal clocks and machines that reply alike, two consoles come down to
the same actions, reply alike themselves and are left with equal clocks. -/
theorem replies_congr (hclock : s.clock = t.clock) {commands : List Command}
    (h : s.machine.replies (s.runActions commands) =
      t.machine.replies (s.runActions commands)) :
    s.runActions commands = t.runActions commands ∧
      s.replies commands = t.replies commands ∧
      (s.run commands).clock = (t.run commands).clock := by
  induction commands generalizing s t with
  | nil => exact ⟨rfl, rfl, hclock⟩
  | cons c commands ih =>
    obtain ⟨hfirst, hrest⟩ := Machine.replies_append_congr h
    obtain ⟨hactions, hreply, hclock'⟩ := perform_congr hclock hfirst
    rw [← machine_act, hactions, ← machine_act] at hrest
    obtain ⟨hactions', hreplies, hclocks⟩ := ih hclock' hrest
    refine ⟨?_, ?_, hclocks⟩
    · rw [runActions, runActions, hactions, hactions']
    · rw [replies, replies, hreply, hreplies]

end Console

end Chip8
