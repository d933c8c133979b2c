import Chip8.Console
import Chip8.Proofs.History
/-!
# What a clock does to the machine it drives

A clock reaches its machine only by cycles and timer periods. The actions
that each command of a console comes down to are written out here
(`Console.actions`): the machine after the command is the machine after
those actions (`machine_act`), and the notices of ticks are the notices of
theirs (`ticksNotices_eq`). So what holds along every list of actions holds
along every history of a console.
-/

namespace Chip8

namespace Machine

theorem timerPeriods_snd (m : Machine) (periods tones : Nat) :
    (m.timerPeriods periods tones).2 = m.run (List.replicate periods .timerPeriod) := by
  induction periods generalizing m tones with
  | zero => rfl
  | succ k ih => exact ih m.timerPeriod.2 _

theorem timerNotices_eq (m : Machine) (periods : Nat) :
    m.timerNotices periods = m.runNotices (List.replicate periods .timerPeriod) := by
  induction periods generalizing m with
  | zero => rfl
  | succ k ih =>
    rw [List.replicate_succ, runNotices, timerNotices, ih]
    rfl

/-- The notices of a history may be cut anywhere. -/
theorem runNotices_append (m : Machine) (before after : List Action) :
    m.runNotices (before ++ after) = m.runNotices before ++ (m.run before).runNotices after := by
  induction before generalizing m with
  | nil => rfl
  | cons a before ih =>
    simp only [List.cons_append, runNotices, run_cons, List.append_assoc]
    rw [ih]

end Machine

namespace Clock

variable {c d : Clock} {m n : Machine}

/-! ## The actions of a clock -/

/-- The actions that a tick comes down to. -/
def tickActions (c : Clock) (m : Machine) : List Machine.Action :=
  match m.cycle.1 with
  | .ok () => .cycle :: List.replicate c.periodsDue .timerPeriod
  | .error _ => [.cycle]

/-- The actions that several ticks come down to. -/
def ticksActions (c : Clock) (m : Machine) : Nat → List Machine.Action
  | 0 => []
  | n + 1 =>
    c.tickActions m ++
      match c.tick m with
      | (.ok _, c, m) => c.ticksActions m n
      | (.error _, _, _) => []

/-- The machine after a tick, as actions. -/
theorem machine_tick (c : Clock) (m : Machine) :
    (c.tick m).2.2 = m.run (c.tickActions m) := by
  rcases h : m.cycle with ⟨_ | ⟨⟩, n⟩
  · rw [tick_of_cycle_error h]
    simp only [tickActions, h, Machine.run_cons, Machine.run_nil, Machine.act_cycle]
  · rw [tick_of_cycle_ok h]
    simp only [tickActions, h, Machine.run_cons, Machine.act_cycle, Machine.timerPeriods_snd]

theorem tickNotices_eq (c : Clock) (m : Machine) :
    c.tickNotices m = m.runNotices (c.tickActions m) := by
  rcases h : m.cycle with ⟨_ | ⟨⟩, n⟩
  · simp only [tickNotices, tickActions, h, Machine.runNotices, Machine.notices]
  · simp only [tickNotices, tickActions, h, Machine.runNotices, Machine.notices,
      Machine.act_cycle, Machine.timerNotices_eq]

/-! A tick reads the two rates and the cycles left over, not the time left
over, so the cost of a tick may be taken before it or after it. -/

/-- The time left over passes through a tick. -/
theorem tick_spend (c : Clock) (m : Machine) (cost : Nat) :
    (c.spend cost).tick m = ((c.tick m).1, (c.tick m).2.1.spend cost, (c.tick m).2.2) := by
  rcases h : m.cycle with ⟨_ | ⟨⟩, n⟩
  · simp only [tick_of_cycle_error h]
  · simp only [tick_of_cycle_ok h]
    rfl

/-- The actions of ticks do not hang on the time left over. -/
theorem ticksActions_spend (c : Clock) (m : Machine) (cost n : Nat) :
    (c.spend cost).ticksActions m n = c.ticksActions m n := by
  induction n generalizing c m with
  | zero => rfl
  | succ n ih =>
    simp only [ticksActions, tick_spend]
    congr 1
    rcases h : c.tick m with ⟨_ | t, c', m'⟩
    · rfl
    · exact ih c' m'

theorem ticksActions_gain (c : Clock) (m : Machine) (time : Elapsed) (n : Nat) :
    (c.gain time).ticksActions m n = c.ticksActions m n := by
  have h : (c.gain time).spend (time.nanoseconds * c.cpuRate.toNat) = c := by
    simp only [spend, gain, Nat.add_sub_cancel]
  rw [← ticksActions_spend (c.gain time) m (time.nanoseconds * c.cpuRate.toNat), h]

/-- The machine after several ticks, as actions. -/
theorem machine_ticks (c : Clock) (m : Machine) (cost : Nat) (total : Tick) (n : Nat) :
    (c.ticks m cost total n).2.2 = m.run (c.ticksActions m n) := by
  induction n generalizing c m total with
  | zero => rfl
  | succ n ih =>
    -- the clock goes on with less time left over, which its actions do not read
    rw [ticks, ticksActions, Machine.run_append, ← machine_tick, tick_spend]
    rcases h : c.tick m with ⟨_ | t, c', m'⟩
    · rfl
    · simp only [ih, ticksActions_spend]

theorem ticksNotices_eq (c : Clock) (m : Machine) (n : Nat) :
    c.ticksNotices m n = m.runNotices (c.ticksActions m n) := by
  induction n generalizing c m with
  | zero => rfl
  | succ n ih =>
    rw [ticksNotices, ticksActions, Machine.runNotices_append, ← machine_tick, tickNotices_eq]
    rcases h : c.tick m with ⟨_ | t, c', m'⟩
    · rfl
    · simp only [ih]

/-- The cycles of a clock are no resets, and neither are its timer periods. -/
theorem reset_not_mem_tickActions (c : Clock) (m : Machine) :
    Machine.Action.reset ∉ c.tickActions m := by
  unfold tickActions
  split <;> simp

theorem reset_not_mem_ticksActions (c : Clock) (m : Machine) (n : Nat) :
    Machine.Action.reset ∉ c.ticksActions m n := by
  induction n generalizing c m with
  | zero => simp [ticksActions]
  | succ n ih =>
    rw [ticksActions, List.mem_append, not_or]
    refine ⟨reset_not_mem_tickActions c m, ?_⟩
    rcases h : c.tick m with ⟨_ | t, c', m'⟩
    · simp
    · exact ih c' m'

end Clock

namespace Console

variable {s : Console}

/-! ## The actions of a console -/

/-- The actions that a command comes down to. -/
def actions (s : Console) : Command → List Machine.Action
  | .machine a => [a]
  | .tick => s.clock.tickActions s.machine
  | .runSteps steps => s.clock.ticksActions s.machine steps
  | .runFor time => s.clock.ticksActions s.machine (s.clock.gain time).affordable
  | .setClock _ _ | .useClock _ | .resetClock => []

/-- The actions that a list of commands comes down to. -/
def runActions (s : Console) : List Command → List Machine.Action
  | [] => []
  | c :: commands => s.actions c ++ (s.act c).runActions commands

/-- **A command does to the machine what its actions do.** -/
theorem machine_act (s : Console) (c : Command) :
    (s.act c).machine = s.machine.run (s.actions c) := by
  cases c with
  | machine a => rfl
  | tick => exact Clock.machine_tick s.clock s.machine
  | runSteps steps => exact Clock.machine_ticks s.clock s.machine 0 0 steps
  | runFor time =>
    rw [actions, ← Clock.ticksActions_gain, act, perform, Clock.runFor, Clock.payTicks_eq]
    exact Clock.machine_ticks (s.clock.gain time) s.machine Elapsed.second 0 _
  | setClock cpuRate timerRate => rfl
  | useClock clock => rfl
  | resetClock => rfl

/-- And so does a list of commands. -/
theorem machine_run (s : Console) (commands : List Command) :
    (s.run commands).machine = s.machine.run (s.runActions commands) := by
  induction commands generalizing s with
  | nil => rfl
  | cons c commands ih =>
    rw [run_cons, ih, runActions, Machine.run_append, machine_act]

/-- Without a reset among the commands there is none among the actions. -/
theorem reset_not_mem_actions {c : Command} (h : c ≠ .machine .reset) :
    Machine.Action.reset ∉ s.actions c := by
  cases c with
  | machine a =>
    intro ha
    rw [actions, List.mem_singleton] at ha
    exact h (by rw [← ha])
  | tick => exact Clock.reset_not_mem_tickActions s.clock s.machine
  | runSteps steps => exact Clock.reset_not_mem_ticksActions s.clock s.machine steps
  | runFor time => exact Clock.reset_not_mem_ticksActions s.clock s.machine _
  | _ => simp [actions]

theorem reset_not_mem_runActions {commands : List Command}
    (h : Command.machine .reset ∉ commands) : Machine.Action.reset ∉ s.runActions commands := by
  induction commands generalizing s with
  | nil => simp [runActions]
  | cons c commands ih =>
    rw [List.mem_cons, not_or] at h
    rw [runActions, List.mem_append, not_or]
    exact ⟨reset_not_mem_actions fun e => h.1 e.symm, ih h.2⟩

end Console

end Chip8
