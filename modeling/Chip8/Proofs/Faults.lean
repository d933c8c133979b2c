import Chip8.Proofs.Schedule
/-!
# Faults are atomic and latched

A cycle that fails changes nothing but the fault of the machine. From then
on no action except a reset moves the machine on: the fault stays
(`fault_act`), the machine keeps its course, and nothing more is reported
as an error (`errors_notices_of_fault`), whether the actions are asked for
one by one or come from a clock. The main result, `fault_latched`, puts
this together over whole histories of a console.
-/

namespace Chip8

/-- The notices of faults among others. -/
def Notice.errors (notices : List Notice) : List Notice :=
  notices.filter fun n => n.level = .error

@[simp] theorem Notice.errors_append (before after : List Notice) :
    Notice.errors (before ++ after) = Notice.errors before ++ Notice.errors after :=
  List.filter_append before after

namespace Machine

variable {m n : Machine} {a : Action} {actions : List Action} {f : Fault}

/-! ## One action after a fault -/

/-- A fault stays until a reset. -/
theorem fault_act (h : m.fault = some f) (ha : a ≠ .reset) : (m.act a).fault = some f := by
  cases a with
  | reset => exact absurd rfl ha
  | cycle => rw [act_cycle, cycle_of_fault h, h]
  | load program =>
    obtain ⟨memory, hm⟩ := act_load m program
    rw [hm]
    exact h
  | _ => exact h

/-- After a fault no action reports an error. -/
theorem errors_notices_of_fault (h : m.fault = some f) (a : Action) :
    Notice.errors (m.notices a) = [] := by
  cases a with
  | cycle => simp only [notices, cycleNotices, h, Notice.errors, List.filter_nil]
  | load program =>
    simp only [notices]
    cases m.loadProgram program <;> rfl
  | _ => rfl

/-- What an instruction reports before it is executed is no error. -/
theorem errors_executionNotices (m : Machine) (i : Instruction) :
    Notice.errors (m.executionNotices i) = [] := by
  cases i with
  | awaitKey x =>
    unfold executionNotices
    cases hk : m.keypad.first? with
    | some key => rfl
    | none => cases m.awaitingKey <;> rfl
  | _ => rfl

/-- The errors of a cycle are those of its step. -/
theorem errors_cycleNotices (h : m.fault = none) :
    Notice.errors m.cycleNotices =
      match m.step with
      | .ok _ => []
      | .error f => [.faulted f] := by
  simp only [cycleNotices, h, Notice.errors_append]
  have hbefore : Notice.errors
      ((Instruction.decode? m.fetch).elim [] m.executionNotices) = [] := by
    cases Instruction.decode? m.fetch with
    | none => rfl
    | some i => exact m.errors_executionNotices i
  rw [hbefore]
  cases m.step <;> rfl

/-- A cycle that fails reports its fault, and no other error. -/
theorem errors_cycleNotices_of_faulting (h : m.fault = none) (hf : m.Faulting f) :
    Notice.errors m.cycleNotices = [.faulted f] := by
  rw [errors_cycleNotices h, step_eq_error_iff.2 hf]

/-! ## Histories after a fault -/

/-- The fault stays, and the machine keeps its course, until a reset. -/
theorem run_of_fault (h : m.fault = some f) (hr : Action.reset ∉ actions) :
    (m.run actions).fault = some f ∧ m.SameCourse (m.run actions) := by
  induction actions generalizing m with
  | nil => exact ⟨h, SameCourse.refl m⟩
  | cons a actions ih =>
    rw [List.mem_cons, not_or] at hr
    have ha : a ≠ .reset := fun e => hr.1 e.symm
    have hc : m.SameCourse (m.act a) := sameCourse_act ha (executed?_of_fault h)
    obtain ⟨hf, hs⟩ := ih (fault_act h ha) hr.2
    exact ⟨hf, hc.trans hs⟩

/-- Nothing more is reported as an error. -/
theorem errors_runNotices_of_fault (h : m.fault = some f) (hr : Action.reset ∉ actions) :
    Notice.errors (m.runNotices actions) = [] := by
  induction actions generalizing m with
  | nil => rfl
  | cons a actions ih =>
    rw [List.mem_cons, not_or] at hr
    rw [runNotices, Notice.errors_append, errors_notices_of_fault h,
      ih (fault_act h fun e => hr.1 e.symm) hr.2]
    rfl

end Machine

namespace Console

variable {s : Console} {c : Command} {commands : List Command} {f : Fault}

/-- The errors that a command reports are those of its actions: a clock
adds no more than the line that sums up a stretch of time. -/
theorem errors_notices (s : Console) (c : Command) :
    Notice.errors (s.notices c) = Notice.errors (s.machine.runNotices (s.actions c)) := by
  cases c with
  | machine a => simp only [notices, actions, Machine.runNotices, List.append_nil]
  | tick => rw [notices, actions, Clock.tickNotices_eq]
  | runSteps steps => rw [notices, actions, Clock.ticksNotices_eq]
  | runFor time =>
    rw [notices, actions, Clock.runForNotices, Notice.errors_append, Clock.ticksNotices_eq]
    cases (s.clock.runFor s.machine time).1 <;> exact List.append_nil _
  | _ => rfl

/-- A faulted machine keeps its fault and its course under every command
but a reset, and no further error is reported. -/
theorem run_of_fault (h : s.machine.fault = some f) (hr : Command.machine .reset ∉ commands) :
    (s.run commands).machine.fault = some f ∧ s.machine.SameCourse (s.run commands).machine ∧
      Notice.errors (s.runNotices commands) = [] := by
  induction commands generalizing s with
  | nil => exact ⟨h, Machine.SameCourse.refl _, rfl⟩
  | cons c commands ih =>
    rw [List.mem_cons, not_or] at hr
    have hno : Machine.Action.reset ∉ s.actions c :=
      reset_not_mem_actions fun e => hr.1 e.symm
    obtain ⟨hf, hc⟩ := Machine.run_of_fault h hno
    rw [← machine_act] at hf hc
    obtain ⟨hf', hc', he'⟩ := ih hf hr.2
    refine ⟨hf', hc.trans hc', ?_⟩
    rw [runNotices, Notice.errors_append, errors_notices,
      Machine.errors_runNotices_of_fault h hno, he']
    rfl

/-- **Faults are atomic and latched.** On a machine without a fault a cycle
fails exactly in the three cases of `Faulting`, judged on the machine
before it. It then changes nothing but the fault, and whatever commands
follow, a reset apart, every cycle and every tick of any clock fails with
that fault again and changes nothing, the machine keeps its course, and the
fault is the one error reported from the failing cycle on. -/
theorem fault_latched (s : Console) (hs : s.machine.fault = none) :
    (∀ f, s.machine.cycle.1 = .error f ↔ s.machine.Faulting f) ∧
      ∀ f, s.machine.Faulting f →
        s.machine.cycle = (.error f, { s.machine with fault := some f }) ∧
        ∀ commands, Command.machine .reset ∉ commands →
          let t := s.run (.machine .cycle :: commands)
          t.machine.cycle = (.error f, t.machine) ∧
            (∀ clock : Clock, clock.tick t.machine = (.error f, clock, t.machine)) ∧
            s.machine.SameCourse t.machine ∧
            Notice.errors (s.runNotices (.machine .cycle :: commands)) = [.faulted f] := by
  refine ⟨fun f => Machine.cycle_fst_eq_error_iff hs, fun f hf => ?_⟩
  have hcycle : s.machine.cycle = (.error f, { s.machine with fault := some f }) :=
    Machine.cycle_of_step_error hs (Machine.step_eq_error_iff.2 hf)
  refine ⟨hcycle, fun commands hr => ?_⟩
  have hm : (s.act (.machine .cycle)).machine = { s.machine with fault := some f } := by
    rw [machine_act, actions, Machine.run_cons, Machine.run_nil, Machine.act_cycle, hcycle]
  have hfault : (s.act (.machine .cycle)).machine.fault = some f := by rw [hm]
  have hcourse : s.machine.SameCourse (s.act (.machine .cycle)).machine := by
    rw [hm]
    exact { Machine.SameCourse.refl s.machine with }
  obtain ⟨hf', hc', he'⟩ := run_of_fault hfault hr
  have hagain := Machine.cycle_of_fault hf'
  refine ⟨hagain, fun clock => Clock.tick_of_cycle_error hagain, hcourse.trans hc', ?_⟩
  rw [runNotices, Notice.errors_append, he', notices, Machine.notices,
    Machine.errors_cycleNotices_of_faulting hs hf]
  rfl

/-- A machine whose program is a lone return. -/
def loneReturn : Console where
  machine := (Machine.powerOn 0 Profile.standard).act (.load [0x00, 0xEE])
  clock := Clock.withRates 500 60

/-- The return fails, and a timer period, a load and time that goes by
change nothing about that. -/
theorem fault_latched_loneReturn :
    let commands := [Command.machine .timerPeriod, .machine (.load [0x12, 0x00]),
      .runFor ⟨Elapsed.second⟩]
    let t := loneReturn.run (.machine .cycle :: commands)
    loneReturn.machine.fault = none ∧ loneReturn.machine.Faulting (.stackUnderflow 0x200) ∧
      Command.machine .reset ∉ commands ∧
      loneReturn.machine.cycle =
        (.error (.stackUnderflow 0x200),
          { loneReturn.machine with fault := some (.stackUnderflow 0x200) }) ∧
      t.machine.cycle = (.error (.stackUnderflow 0x200), t.machine) ∧
      loneReturn.machine.SameCourse t.machine ∧
      Notice.errors (loneReturn.runNotices (.machine .cycle :: commands)) =
        [.faulted (.stackUnderflow 0x200)] := by
  intro commands t
  have hf : loneReturn.machine.fault = none := rfl
  have hi : Instruction.decode? loneReturn.machine.fetch = some .returnFromCall := by
    decide +kernel
  have hfault : loneReturn.machine.Faulting (.stackUnderflow 0x200) := .returnWithoutCall hi rfl
  have hr : Command.machine .reset ∉ commands := by simp [commands]
  obtain ⟨-, h⟩ := fault_latched loneReturn hf
  obtain ⟨hcycle, hlatched⟩ := h _ hfault
  obtain ⟨hc, -, hs, he⟩ := hlatched commands hr
  exact ⟨hf, hfault, hr, hcycle, hc, hs, he⟩

end Console

end Chip8
