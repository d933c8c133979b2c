import Chip8.Proofs.Calls
import Chip8.Proofs.Stepping
/-!
# Who sees the timers

`untimed` is all of a machine but its two timers. Only one instruction
reads a timer; every other one does the same to machines that are equal so
far (`map_untimed_execute_untimed`), and a timer period touches nothing
else. So histories that differ in their timer periods alone, in number or
in place, go on in lockstep for as long as no delay timer is read
(`Retimed.lockstep`).

What a clock adds to the cycles asked of it are timer periods, so its rates
are no better seen than the timers (`doesAsked_runActions`). The main
result, `timers_unseen`, says both.
-/

namespace Chip8

/-- Whether an instruction reads or sets a timer. -/
def Instruction.isTimed : Instruction → Bool
  | .getDelay _ | .setDelay _ | .setSound _ => true
  | _ => false

namespace Machine

variable {m n : Machine} {a : Action} {i : Instruction} {actions retimed : List Action}

/-- The machine with both timers at zero, and everything else as it is. -/
def untimed (m : Machine) : Machine :=
  { m with registers := { m.registers with delay := 0, sound := 0 } }

@[simp] theorem untimed_untimed (m : Machine) : m.untimed.untimed = m.untimed := rfl

/-! ## Instructions -/

theorem untimed_advanceIndex (m : Machine) (x : Digit) (advances : Bool) :
    (m.advanceIndex x advances).untimed = m.untimed.advanceIndex x advances := by
  unfold advanceIndex
  split <;> rfl

theorem untimed_storeBlock (m : Machine) (x : Digit) :
    (m.storeBlock x).untimed = m.untimed.storeBlock x :=
  untimed_advanceIndex _ x _

theorem untimed_loadBlock (m : Machine) (x : Digit) :
    (m.loadBlock x).untimed = m.untimed.loadBlock x :=
  untimed_advanceIndex _ x _

theorem untimed_compute (m : Machine) (f : Arithmetic) (x y : Digit) :
    (m.compute f x y).untimed = m.untimed.compute f x y := by
  have happly : f.apply m.untimed.profile (m.untimed.v x) (m.untimed.v y) =
      f.apply m.profile (m.v x) (m.v y) := rfl
  unfold compute
  rw [happly]
  split <;> rfl

theorem untimed_awaitKey (m : Machine) (x : Digit) :
    (m.awaitKey x).untimed = m.untimed.awaitKey x := by
  have hkey : m.untimed.keypad.first? = m.keypad.first? := rfl
  unfold awaitKey
  rw [hkey]
  split <;> rfl

theorem map_untimed_call (m : Machine) (target : UInt16) :
    (m.call target).map untimed = m.untimed.call target := by
  have hpush : m.untimed.stack.push? (m.untimed.pc + 2) = m.stack.push? (m.pc + 2) := rfl
  unfold call
  rw [hpush]
  split <;> rfl

theorem map_untimed_returnFromCall (m : Machine) :
    m.returnFromCall.map untimed = m.untimed.returnFromCall := by
  have hpop : m.untimed.stack.pop? = m.stack.pop? := rfl
  unfold returnFromCall
  rw [hpop]
  split <;> rfl

/-- An instruction that leaves the timers alone does so with both at zero as
with any other timers. -/
theorem map_untimed_execute (hi : i.isTimed = false) :
    (m.execute i).map untimed = m.untimed.execute i := by
  cases i with
  | getDelay x => cases hi
  | setDelay x => cases hi
  | setSound x => cases hi
  | returnFromCall => exact map_untimed_returnFromCall m
  | call target => exact map_untimed_call m _
  | arithmetic f x y =>
    exact congrArg (fun k : Machine => Except.ok k.next) (untimed_compute m f x y)
  | awaitKey x => exact congrArg Except.ok (untimed_awaitKey m x)
  | storeBlock x => exact congrArg (fun k : Machine => Except.ok k.next) (untimed_storeBlock m x)
  | loadBlock x => exact congrArg (fun k : Machine => Except.ok k.next) (untimed_loadBlock m x)
  | _ => rfl

/-- **Only one instruction sees a timer**: every other one, those that set
the timers included, leaves the same behind whatever the timers were. -/
theorem map_untimed_execute_untimed (hi : ∀ x, i ≠ .getDelay x) :
    (m.untimed.execute i).map untimed = (m.execute i).map untimed := by
  cases ht : i.isTimed with
  | false => rw [map_untimed_execute ht, map_untimed_execute ht, untimed_untimed]
  | true =>
    cases i with
    | getDelay x => exact absurd rfl (hi x)
    | setDelay x => rfl
    | setSound x => rfl
    | _ => cases ht

/-! ## Actions -/

theorem map_untimed_step_untimed
    (hi : ∀ x, Instruction.decode? m.fetch ≠ some (.getDelay x)) :
    m.untimed.step.map untimed = m.step.map untimed := by
  have hfetch : m.untimed.fetch = m.fetch := rfl
  unfold step
  rw [hfetch]
  cases hd : Instruction.decode? m.fetch with
  | none => rfl
  | some i => exact map_untimed_execute_untimed fun x e => hi x (by rw [hd, e])

theorem cycle_untimed (hx : ∀ x, m.executed? .cycle ≠ some (.getDelay x)) :
    m.untimed.cycle.1 = m.cycle.1 ∧ m.untimed.cycle.2.untimed = m.cycle.2.untimed := by
  have hfault : m.untimed.fault = m.fault := rfl
  cases hf : m.fault with
  | some f =>
    rw [cycle_of_fault hf, cycle_of_fault (hfault.trans hf)]
    exact ⟨rfl, rfl⟩
  | none =>
    have hstep := map_untimed_step_untimed (m := m) fun x hi =>
      hx x ((executed?_cycle_eq_some_iff rfl).2 ⟨hf, hi⟩)
    rcases hs : m.step with f | n <;> rcases hu : m.untimed.step with g | k <;>
      rw [hs, hu] at hstep
    · obtain rfl : g = f := Except.error.inj hstep
      rw [cycle_of_step_error hf hs, cycle_of_step_error (hfault.trans hf) hu]
      exact ⟨rfl, rfl⟩
    · cases hstep
    · cases hstep
    · rw [cycle_of_step_ok hf hs, cycle_of_step_ok (hfault.trans hf) hu]
      exact ⟨rfl, Except.ok.inj hstep⟩

/-- Machines equal but for the timers execute the same instruction; that of
reading the delay timer cannot fail. -/
theorem executed?_untimed (m : Machine) (a : Action) :
    m.untimed.executed? a = m.executed? a := by
  cases a with
  | cycle =>
    by_cases hx : ∃ x, m.executed? .cycle = some (.getDelay x)
    · obtain ⟨x, hx⟩ := hx
      have hreads := (executed?_cycle_eq_some_iff rfl).1 hx
      rw [hx]
      exact (executed?_cycle_eq_some_iff rfl).2 hreads
    · have hfetch : m.untimed.fetch = m.fetch := rfl
      simp only [executed?, (cycle_untimed (not_exists.1 hx)).1, hfetch]
  | _ => rfl

/-- What there is to see of an action but the timers: its reply, and the
rest of the machine after it. -/
def observe (m : Machine) (a : Action) : Except Fault Reply × Machine :=
  ((m.perform a).1, (m.act a).untimed)

/-- **Only a timer period, and a cycle that reads the delay timer, tell
machines apart that are equal but for the timers.** -/
theorem observe_untimed (ha : a ≠ .timerPeriod)
    (hx : ∀ x, m.executed? a ≠ some (.getDelay x)) : m.untimed.observe a = m.observe a := by
  cases a with
  | timerPeriod => exact absurd rfl ha
  | cycle =>
    obtain ⟨hresult, hafter⟩ := cycle_untimed hx
    exact Prod.ext (congrArg (Except.map fun _ => Reply.done) hresult) hafter
  | load program =>
    have hmemory : m.untimed.memory = m.memory := rfl
    simp only [observe, act, perform, loadProgram, hmemory]
    cases m.memory.load Registers.programStart program <;> rfl
  | _ => rfl

/-- Machines equal but for the timers are so after the same action. -/
theorem observe_congr (h : m.untimed = n.untimed) (ha : a ≠ .timerPeriod)
    (hx : ∀ x, m.executed? a ≠ some (.getDelay x)) : m.observe a = n.observe a := by
  have hsame : m.executed? a = n.executed? a := by
    rw [← executed?_untimed, h, executed?_untimed]
  rw [← observe_untimed ha hx, h, observe_untimed ha (hsame ▸ hx)]

/-- A timer period touches nothing but the timers. -/
theorem untimed_act_timerPeriod (m : Machine) : (m.act .timerPeriod).untimed = m.untimed := rfl

/-! ## Histories -/

/-- A list of actions without its timer periods. -/
def withoutPeriods (actions : List Action) : List Action :=
  actions.filter (· ≠ .timerPeriod)

theorem withoutPeriods_cons_of_ne (ha : a ≠ .timerPeriod) (actions : List Action) :
    withoutPeriods (a :: actions) = a :: withoutPeriods actions :=
  List.filter_cons_of_pos (by simpa using ha)

/-- What there is to see of a list of actions but the timers: what there is
to see of each that is no timer period. -/
def observations (m : Machine) : List Action → List (Except Fault Reply × Machine)
  | [] => []
  | a :: actions =>
    (if a = .timerPeriod then [] else [m.observe a]) ++ (m.act a).observations actions

/-- Two lists of actions are the same but for their timer periods. -/
inductive Retimed : List Action → List Action → Prop
  | nil : Retimed [] []
  /-- A timer period in the first list alone. -/
  | left {actions retimed : List Action} (h : Retimed actions retimed) :
      Retimed (.timerPeriod :: actions) retimed
  /-- A timer period in the second list alone. -/
  | right {actions retimed : List Action} (h : Retimed actions retimed) :
      Retimed actions (.timerPeriod :: retimed)
  /-- Any other action in both. -/
  | both {a : Action} {actions retimed : List Action} (ha : a ≠ .timerPeriod)
      (h : Retimed actions retimed) : Retimed (a :: actions) (a :: retimed)

/-- Timer periods may stand before the second list. -/
theorem Retimed.right_append (h : Retimed actions retimed) {periods : List Action}
    (hp : ∀ b ∈ periods, b = .timerPeriod) : Retimed actions (periods ++ retimed) := by
  induction periods with
  | nil => exact h
  | cons b periods ih =>
    rw [List.forall_mem_cons] at hp
    obtain ⟨rfl, hp⟩ := hp
    exact .right (ih hp)

theorem retimed_of_withoutPeriods_eq (h : withoutPeriods actions = withoutPeriods retimed) :
    Retimed actions retimed := by
  induction actions generalizing retimed with
  | nil =>
    have hperiods := List.filter_eq_nil_iff.1 h.symm
    rw [← List.append_nil retimed]
    exact Retimed.nil.right_append fun b hb => by simpa using hperiods b hb
  | cons a actions ih =>
    by_cases ha : a = .timerPeriod
    · subst ha
      exact .left (ih h)
    · -- the second list has timer periods up to its own `a`
      rw [withoutPeriods_cons_of_ne ha] at h
      obtain ⟨periods, rest, rfl, hperiods, -, hrest⟩ := List.filter_eq_cons_iff.1 h.symm
      have hboth : Retimed (a :: actions) (a :: rest) := .both ha (ih hrest.symm)
      exact hboth.right_append fun b hb => by simpa using hperiods b hb

/-- **Histories that differ in their timer periods alone go on in
lockstep**, as long as no delay timer is read. -/
theorem Retimed.lockstep (hr : Retimed actions retimed) (h : m.untimed = n.untimed)
    (hx : ∀ x, .getDelay x ∉ m.executed actions) :
    m.observations actions = n.observations retimed ∧
      (m.run actions).untimed = (n.run retimed).untimed := by
  induction hr generalizing m n with
  | nil => exact ⟨rfl, h⟩
  | left hr ih => exact ih ((untimed_act_timerPeriod m).trans h) hx
  | right hr ih => exact ih (h.trans (untimed_act_timerPeriod n).symm) hx
  | @both a actions retimed ha hr ih =>
    simp only [executed_cons, List.mem_append, not_or, Option.mem_toList] at hx
    have hobserved := observe_congr h ha fun x => (hx x).1
    have hrest := ih (congrArg Prod.snd hobserved) fun x => (hx x).2
    simp only [observations, if_neg ha, run_cons, hobserved, hrest.1, hrest.2, and_self]

/-! ## Cycles left undone -/

theorem withoutPeriods_append (before after : List Action) :
    withoutPeriods (before ++ after) = withoutPeriods before ++ withoutPeriods after :=
  List.filter_append ..

theorem withoutPeriods_replicate_cycle (k : Nat) :
    withoutPeriods (List.replicate k .cycle) = List.replicate k .cycle :=
  List.filter_replicate_of_pos rfl

theorem withoutPeriods_replicate_timerPeriod (k : Nat) :
    withoutPeriods (List.replicate k .timerPeriod) = [] :=
  List.filter_replicate_of_neg nofun

/-- The actions done are those asked for with timer periods put in, except
that cycles which would do nothing are left undone. -/
def DoesAsked (m : Machine) (asked done : List Action) : Prop :=
  ∃ actions, withoutPeriods actions = asked ∧ m.run actions = m.run done ∧
    m.executed actions = m.executed done

theorem doesAsked_withoutPeriods (m : Machine) (actions : List Action) :
    m.DoesAsked (withoutPeriods actions) actions :=
  ⟨actions, rfl, rfl, rfl⟩

theorem DoesAsked.append {asked done asked' done' : List Action} (h : m.DoesAsked asked done)
    (h' : (m.run done).DoesAsked asked' done') :
    m.DoesAsked (asked ++ asked') (done ++ done') := by
  obtain ⟨before, rfl, hrun, hexecuted⟩ := h
  obtain ⟨after, rfl, hrun', hexecuted'⟩ := h'
  refine ⟨before ++ after, withoutPeriods_append before after, ?_, ?_⟩
  · rw [run_append, run_append, hrun, hrun']
  · rw [executed_append, executed_append, hrun, hexecuted, hexecuted']

/-- With a fault there is nothing to do in a cycle. -/
theorem doesAsked_of_fault {f : Fault} (h : m.fault = some f) (k : Nat) :
    m.DoesAsked (List.replicate k .cycle) [] := by
  have hact : m.act .cycle = m := by rw [act_cycle, cycle_of_fault h]
  refine ⟨List.replicate k .cycle, withoutPeriods_replicate_cycle k, ?_⟩
  induction k with
  | zero => exact ⟨rfl, rfl⟩
  | succ k ih =>
    rw [List.replicate_succ, run_cons, executed_cons, hact, executed?_of_fault h]
    exact ih

end Machine

/-! ## Clocks -/

namespace Clock

theorem withoutPeriods_tickActions (c : Clock) (m : Machine) :
    Machine.withoutPeriods (c.tickActions m) = [.cycle] := by
  unfold tickActions
  split
  · exact congrArg (Machine.Action.cycle :: ·) (Machine.withoutPeriods_replicate_timerPeriod _)
  · rfl

/-- **Ticks are the cycles asked for and timer periods**, up to the first
fault. -/
theorem doesAsked_ticksActions (c : Clock) (m : Machine) (k : Nat) :
    m.DoesAsked (List.replicate k .cycle) (c.ticksActions m k) := by
  induction k generalizing c m with
  | zero => exact m.doesAsked_withoutPeriods []
  | succ k ih =>
    have htick := m.doesAsked_withoutPeriods (c.tickActions m)
    rw [withoutPeriods_tickActions] at htick
    rw [ticksActions]
    show m.DoesAsked ([.cycle] ++ List.replicate k .cycle) _
    refine htick.append ?_
    rw [← machine_tick]
    rcases h : c.tick m with ⟨f | t, d, n⟩
    · have hn := tick_eq_of_error (congrArg Prod.fst h)
      rw [h, Prod.mk.injEq, Prod.mk.injEq] at hn
      obtain ⟨-, -, rfl⟩ := hn
      exact Machine.doesAsked_of_fault rfl k
    · exact ih d n

end Clock

namespace Console

/-- The actions, timer periods apart, that a command asks for. A machine
that stops with a fault leaves some of the cycles undone. -/
def asks (s : Console) : Command → List Machine.Action
  | .machine a => Machine.withoutPeriods [a]
  | .tick => [.cycle]
  | .runSteps steps => List.replicate steps .cycle
  | .runFor time => List.replicate (s.clock.gain time).affordable .cycle
  | .setClock _ _ | .useClock _ | .resetClock => []

/-- The actions, timer periods apart, that a list of commands asks for. -/
def asked (s : Console) : List Command → List Machine.Action
  | [] => []
  | c :: commands => s.asks c ++ (s.act c).asked commands

theorem doesAsked_actions (s : Console) (c : Command) :
    s.machine.DoesAsked (s.asks c) (s.actions c) := by
  cases c with
  | machine a => exact s.machine.doesAsked_withoutPeriods [a]
  | tick =>
    have h := s.machine.doesAsked_withoutPeriods (s.clock.tickActions s.machine)
    rwa [Clock.withoutPeriods_tickActions] at h
  | runSteps steps => exact s.clock.doesAsked_ticksActions s.machine steps
  | runFor time => exact s.clock.doesAsked_ticksActions s.machine _
  | _ => exact s.machine.doesAsked_withoutPeriods []

/-- **A console does what is asked of it**, with timer periods put in. -/
theorem doesAsked_runActions (s : Console) (commands : List Command) :
    s.machine.DoesAsked (s.asked commands) (s.runActions commands) := by
  induction commands generalizing s with
  | nil => exact s.machine.doesAsked_withoutPeriods []
  | cons c commands ih =>
    refine (doesAsked_actions s c).append ?_
    rw [← machine_act]
    exact ih (s.act c)

/-- Commands that give the clock no time ask the same of every console. -/
theorem asked_congr {commands : List Command} (h : ∀ time, .runFor time ∉ commands)
    (s t : Console) : s.asked commands = t.asked commands := by
  induction commands generalizing s t with
  | nil => rfl
  | cons c commands ih =>
    simp only [List.mem_cons, not_or] at h
    have hasks : s.asks c = t.asks c := by
      cases c with
      | runFor time => exact absurd rfl (h time).1
      | _ => rfl
    rw [asked, asked, hasks, ih fun time => (h time).2]

/-- **Nobody sees the timers but the instruction that reads the delay
timer.** Take two machines that are equal but for the timers, and two
histories that are the same but for their timer periods. As long as no
delay timer is read, every other action has the same reply in both, faults
included, and leaves machines that are again equal but for the timers.

So the rates of a clock go unseen too: consoles of which the same is asked
end up with machines that are equal but for the timers, whatever their
clocks and the way it is asked, by ticks, by numbers of instructions or by
time. Without time among the commands the same commands ask the same. -/
theorem timers_unseen :
    (∀ (m n : Machine) (actions retimed : List Machine.Action),
      m.untimed = n.untimed →
      Machine.withoutPeriods actions = Machine.withoutPeriods retimed →
      (∀ x, .getDelay x ∉ m.executed actions) →
      m.observations actions = n.observations retimed ∧
        (m.run actions).untimed = (n.run retimed).untimed) ∧
    (∀ (s t : Console) (commands others : List Command),
      s.machine.untimed = t.machine.untimed → s.asked commands = t.asked others →
      (∀ x, .getDelay x ∉ s.executed commands) →
      (s.run commands).machine.untimed = (t.run others).machine.untimed) ∧
    ∀ (m : Machine) (c d : Clock) (commands : List Command),
      (∀ time, .runFor time ∉ commands) →
      (∀ x, .getDelay x ∉ (Console.mk m c).executed commands) →
      ((Console.mk m c).run commands).machine.untimed =
        ((Console.mk m d).run commands).machine.untimed := by
  have hconsoles (s t : Console) (commands others : List Command)
      (h : s.machine.untimed = t.machine.untimed) (hasked : s.asked commands = t.asked others)
      (hx : ∀ x, .getDelay x ∉ s.executed commands) :
      (s.run commands).machine.untimed = (t.run others).machine.untimed := by
    obtain ⟨actions, hactions, hrun, hexecuted⟩ := doesAsked_runActions s commands
    obtain ⟨retimed, hretimed, hrun', -⟩ := doesAsked_runActions t others
    rw [executed, ← hexecuted] at hx
    have hr := Machine.retimed_of_withoutPeriods_eq
      (hactions.trans (hasked.trans hretimed.symm))
    rw [machine_run, machine_run, ← hrun, ← hrun']
    exact (hr.lockstep h hx).2
  refine ⟨fun m n actions retimed h hr hx => ?_, hconsoles, fun m c d commands hc hx => ?_⟩
  · exact (Machine.retimed_of_withoutPeriods_eq hr).lockstep h hx
  · exact hconsoles _ _ commands commands rfl (asked_congr hc _ _) hx

/-- A program that sets both timers and counts from then on. -/
def countOn : List UInt8 := [0x60, 0x05, 0xF0, 0x15, 0xF0, 0x18, 0x71, 0x01, 0x12, 0x06]

/-- A machine that counts, with both timers set. -/
def counting : Machine :=
  (Machine.powerOn 0 Profile.standard).run [.load countOn, .cycle, .cycle, .cycle]

/-- Machines two timer periods apart, with timer periods at different places
from then on, count alike; and so they do under a clock that has the timers
stand still for three instructions and one that runs them out in each. -/
theorem timers_unseen_counting :
    let later := counting.run [.timerPeriod, .timerPeriod]
    let actions := [Machine.Action.cycle, .timerPeriod, .press 0x3, .cycle]
    let retimed := [Machine.Action.cycle, .press 0x3, .timerPeriod, .timerPeriod, .cycle]
    let s : Console := ⟨counting, Clock.withRates 500 60⟩
    let t : Console := ⟨later, Clock.withRates 1 4000⟩
    (counting.registers.delay ≠ later.registers.delay ∧ counting.untimed = later.untimed ∧
      Machine.withoutPeriods actions = Machine.withoutPeriods retimed ∧
      (∀ x, .getDelay x ∉ counting.executed actions) ∧
      counting.observations actions = later.observations retimed) ∧
    (s.asked [.runSteps 3] = t.asked [.tick, .runFor (Elapsed.ofParts 2 0)] ∧
      (∀ x, .getDelay x ∉ s.executed [.runSteps 3]) ∧
      (s.run [.runSteps 3]).machine.untimed =
        (t.run [.tick, .runFor (Elapsed.ofParts 2 0)]).machine.untimed) ∧
    (s.run [.runSteps 3]).machine.untimed =
      ((Console.mk counting t.clock).run [.runSteps 3]).machine.untimed := by
  intro later actions retimed s t
  have huntimed : counting.untimed = later.untimed := by
    simp only [later, Machine.run_cons, Machine.run_nil, Machine.untimed_act_timerPeriod]
  have hretimed : Machine.withoutPeriods actions = Machine.withoutPeriods retimed := rfl
  have hsteps : ∀ time, Command.runFor time ∉ [Command.runSteps 3] := by simp
  obtain ⟨hdelay, hexecuted, hexecuted', hasked⟩ :
      counting.registers.delay ≠ later.registers.delay ∧
        counting.executed actions = [.addByte 0x1 0x1, .jump 0x206] ∧
        s.executed [.runSteps 3] = [.addByte 0x1 0x1, .jump 0x206, .addByte 0x1 0x1] ∧
        s.asked [.runSteps 3] = t.asked [.tick, .runFor (Elapsed.ofParts 2 0)] := by
    decide +kernel
  have hmachine : ∀ x, .getDelay x ∉ counting.executed actions := by simp [hexecuted]
  have hconsole : ∀ x, .getDelay x ∉ s.executed [.runSteps 3] := by simp [hexecuted']
  have hcommands (m n : Machine) (c d : Clock) (h : m.untimed = n.untimed) :=
    timers_unseen.2.1 ⟨m, c⟩ ⟨n, d⟩ [.runSteps 3] [.tick, .runFor (Elapsed.ofParts 2 0)] h
  exact ⟨⟨hdelay, huntimed, hretimed, hmachine,
      (timers_unseen.1 counting later actions retimed huntimed hretimed hmachine).1⟩,
    ⟨hasked, hconsole, hcommands counting later s.clock t.clock huntimed hasked hconsole⟩,
    timers_unseen.2.2 counting s.clock t.clock [.runSteps 3] hsteps hconsole⟩

end Console

end Chip8
