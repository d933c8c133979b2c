import Chip8.Proofs.Execution
/-!
# What the actions of a history do

An action other than a reset either is a cycle that executes an
instruction (`executed?_eq_some_iff`), or leaves the machine in the same
course (`sameCourse_act`): the registers, the program counter, the call
stack, the screen and the random bytes are where they were, and only
memory, the keys, the timers, the redraw flag and a new fault may differ.
-/

namespace Chip8

namespace Machine

variable {m n : Machine} {a : Action} {i : Instruction} {f : Fault}

/-! ## Executed instructions -/

/-- The instruction that an action executes, which is that of a cycle that
goes through. -/
def executed? (m : Machine) : Action → Option Instruction
  | .cycle =>
    match m.cycle.1 with
    | .ok () => Instruction.decode? m.fetch
    | .error _ => none
  | _ => none

/-- The instructions that a list of actions executes, one after the other. -/
def executed (m : Machine) : List Action → List Instruction
  | [] => []
  | a :: actions => (m.executed? a).toList ++ (m.act a).executed actions

@[simp] theorem executed_nil (m : Machine) : m.executed [] = [] := rfl

@[simp] theorem executed_cons (m : Machine) (a : Action) (actions : List Action) :
    m.executed (a :: actions) = (m.executed? a).toList ++ (m.act a).executed actions := rfl

/-- The instructions of a history may be cut anywhere. -/
theorem executed_append (m : Machine) (before after : List Action) :
    m.executed (before ++ after) = m.executed before ++ (m.run before).executed after := by
  induction before generalizing m with
  | nil => rfl
  | cons a before ih =>
    simp only [List.cons_append, executed_cons, run_cons, ih, List.append_assoc]

/-- What a cycle leaves behind is the machine after that action. -/
theorem act_cycle (m : Machine) : m.act .cycle = m.cycle.2 := rfl

theorem executed?_of_ne_cycle (h : a ≠ .cycle) : m.executed? a = none := by
  cases a with
  | cycle => exact absurd rfl h
  | _ => rfl

/-- A machine with a fault executes nothing. -/
theorem executed?_of_fault (h : m.fault = some f) : m.executed? a = none := by
  cases a with
  | cycle => simp only [executed?, cycle_of_fault h]
  | _ => rfl

/-- **What it is to execute an instruction**: the action is a cycle, there
is no fault, the word at the program counter decodes to the instruction,
and the machine after it is the one that the instruction leaves. -/
theorem executed?_eq_some_iff :
    m.executed? a = some i ↔
      a = .cycle ∧ m.fault = none ∧ Instruction.decode? m.fetch = some i ∧
        m.execute i = .ok (m.act a) := by
  constructor
  · intro h
    have ha : a = .cycle := by
      by_cases ha : a = .cycle
      · exact ha
      · rw [executed?_of_ne_cycle ha] at h
        cases h
    subst ha
    have hf : m.fault = none := by
      cases hf : m.fault with
      | none => rfl
      | some f =>
        rw [executed?_of_fault hf] at h
        cases h
    cases hs : m.step with
    | error g =>
      simp only [executed?, cycle_of_step_error hf hs] at h
      cases h
    | ok n =>
      have hn : m.act .cycle = n := by
        rw [act_cycle, cycle_of_step_ok hf hs]
      simp only [executed?, cycle_of_step_ok hf hs] at h
      obtain ⟨j, hj, he⟩ := step_eq_ok_iff.1 hs
      rw [h, Option.some.injEq] at hj
      subst hj
      exact ⟨rfl, hf, h, hn ▸ he⟩
  · rintro ⟨rfl, hf, hi, he⟩
    have hs : m.step = .ok (m.act .cycle) := step_eq_ok_iff.2 ⟨i, hi, he⟩
    simp only [executed?, cycle_of_step_ok hf hs, hi]

/-- An instruction that goes through is executed wherever it stands at the
program counter and there is no fault. -/
theorem executed?_cycle_eq_some_iff (he : m.execute i = .ok n) :
    m.executed? .cycle = some i ↔ m.fault = none ∧ Instruction.decode? m.fetch = some i := by
  rw [executed?_eq_some_iff]
  constructor
  · rintro ⟨-, hf, hi, -⟩
    exact ⟨hf, hi⟩
  · rintro ⟨hf, hi⟩
    have hn : m.act .cycle = n := by
      rw [act_cycle, cycle_of_step_ok hf (step_eq_ok_iff.2 ⟨i, hi, he⟩)]
    exact ⟨rfl, hf, hi, hn ▸ he⟩

/-! ## Actions that execute nothing -/

/-- Two machines agree in all that nothing but an instruction or a reset
changes. -/
structure SameCourse (m n : Machine) : Prop where
  v : n.registers.v = m.registers.v
  index : n.index = m.index
  pc : n.pc = m.pc
  stack : n.stack = m.stack
  display : n.display = m.display
  awaitingKey : n.awaitingKey = m.awaitingKey
  random : n.random = m.random
  seed : n.seed = m.seed
  profile : n.profile = m.profile

theorem SameCourse.refl (m : Machine) : m.SameCourse m :=
  ⟨rfl, rfl, rfl, rfl, rfl, rfl, rfl, rfl, rfl⟩

theorem SameCourse.trans {l : Machine} (h : l.SameCourse m) (k : m.SameCourse n) :
    l.SameCourse n :=
  ⟨k.v.trans h.v, k.index.trans h.index, k.pc.trans h.pc, k.stack.trans h.stack,
    k.display.trans h.display, k.awaitingKey.trans h.awaitingKey, k.random.trans h.random,
    k.seed.trans h.seed, k.profile.trans h.profile⟩

/-- A program that is loaded fits, and is copied to the start of program
memory; nothing else changes. -/
theorem of_loadProgram_eq_ok {program : List UInt8} {stop : UInt16}
    (h : m.loadProgram program = .ok (stop, n)) :
    program.length ≤ 0xE00 ∧
      n = { m with memory := m.memory.writeBlock Registers.programStart program } := by
  unfold loadProgram Memory.load at h
  by_cases hroom : program.length ≤ Memory.room Registers.programStart
  · simp only [if_pos hroom, Except.map, Except.ok.injEq, Prod.mk.injEq] at h
    obtain ⟨-, rfl⟩ := h
    exact ⟨hroom, rfl⟩
  · simp only [if_neg hroom, Except.map] at h
    cases h

/-- A program that fits is loaded. -/
theorem exists_loadProgram_eq_ok (m : Machine) {program : List UInt8}
    (h : program.length ≤ 0xE00) :
    ∃ stop, m.loadProgram program = .ok (stop, m.act (.load program)) := by
  have hroom : program.length ≤ Memory.room Registers.programStart := h
  have hload : ∃ stop n, m.loadProgram program = .ok (stop, n) := by
    rw [loadProgram, Memory.load, if_pos hroom]
    exact ⟨_, _, rfl⟩
  obtain ⟨stop, n, hn⟩ := hload
  have hact : m.act (.load program) = n := by
    simp only [act, perform, hn]
  exact ⟨stop, by rw [hn, hact]⟩

theorem act_load (m : Machine) (program : List UInt8) :
    ∃ memory, m.act (.load program) = { m with memory := memory } := by
  cases hl : m.loadProgram program with
  | error g => exact ⟨m.memory, by simp only [act, perform, hl]⟩
  | ok loaded =>
    obtain ⟨-, hm⟩ := of_loadProgram_eq_ok hl
    exact ⟨m.memory.writeBlock Registers.programStart program, by
      simp only [act, perform, hl, hm]⟩

/-- A cycle that executes nothing leaves the machine with a fault, and
otherwise as it was. -/
theorem act_cycle_of_executed?_eq_none (h : m.executed? .cycle = none) :
    ∃ f, m.cycle = (.error f, { m with fault := some f }) := by
  cases hf : m.fault with
  | some f =>
    -- the fault is written over itself
    have hm : { m with fault := some f } = m := by rw [← hf]
    exact ⟨f, by rw [cycle_of_fault hf, hm]⟩
  | none =>
    cases hs : m.step with
    | error f => exact ⟨f, cycle_of_step_error hf hs⟩
    | ok n =>
      obtain ⟨i, hi, -⟩ := step_eq_ok_iff.1 hs
      simp only [executed?, cycle_of_step_ok hf hs, hi] at h
      cases h

/-- **An action that executes nothing, and is no reset, leaves the machine
in the same course.** -/
theorem sameCourse_act (ha : a ≠ .reset) (hx : m.executed? a = none) :
    m.SameCourse (m.act a) := by
  cases a with
  | reset => exact absurd rfl ha
  | cycle =>
    obtain ⟨f, hf⟩ := act_cycle_of_executed?_eq_none hx
    rw [act_cycle, hf]
    exact { SameCourse.refl m with }
  | load program =>
    obtain ⟨memory, hm⟩ := act_load m program
    rw [hm]
    exact { SameCourse.refl m with }
  | _ => exact { SameCourse.refl m with }

end Machine

end Chip8
