import Chip8.Machine.Action
/-!
# What an instruction can run into, and what it does to the call stack

Only a call and a return touch the call stack, and only they can fail: a
call with every level in use (`call_eq_error_iff`), a return with no call
in progress (`returnFromCall_eq_error_iff`). So a step fails exactly when
the machine is `Faulting` before it (`step_eq_error_iff`), and an
instruction that goes through pushes one frame, pops one, or leaves the
stack alone (`stack_of_execute`).
-/

namespace Chip8

/-- An instruction is a call, a return or neither. -/
theorem Instruction.call_or_return_or_neither (i : Instruction) :
    (∃ target, i = .call target) ∨ i = .returnFromCall ∨
      ((∀ target, i ≠ .call target) ∧ i ≠ .returnFromCall) := by
  cases i with
  | call target => exact .inl ⟨target, rfl⟩
  | returnFromCall => exact .inr (.inl rfl)
  | _ => exact .inr (.inr ⟨nofun, nofun⟩)

namespace Machine

variable {m n : Machine} {i : Instruction} {f : Fault}

/-! ## The call stack under each part of an instruction -/

@[simp] theorem stack_goTo (m : Machine) (pc : UInt16) : (m.goTo pc).stack = m.stack := rfl

@[simp] theorem stack_next (m : Machine) : m.next.stack = m.stack := rfl

@[simp] theorem stack_skipIf (m : Machine) (b : Bool) : (m.skipIf b).stack = m.stack := rfl

@[simp] theorem stack_setV (m : Machine) (x : Digit) (b : UInt8) :
    (m.setV x b).stack = m.stack := rfl

@[simp] theorem stack_setIndex (m : Machine) (addr : UInt16) :
    (m.setIndex addr).stack = m.stack := rfl

@[simp] theorem stack_advanceIndex (m : Machine) (x : Digit) (advances : Bool) :
    (m.advanceIndex x advances).stack = m.stack := by
  unfold advanceIndex
  split <;> rfl

@[simp] theorem stack_compute (m : Machine) (op : Arithmetic) (x y : Digit) :
    (m.compute op x y).stack = m.stack := by
  unfold compute
  split <;> rfl

@[simp] theorem stack_drawRandom (m : Machine) (x : Digit) (mask : UInt8) :
    (m.drawRandom x mask).stack = m.stack := rfl

@[simp] theorem stack_drawSprite (m : Machine) (x y rows : Digit) :
    (m.drawSprite x y rows).stack = m.stack := rfl

@[simp] theorem stack_awaitKey (m : Machine) (x : Digit) :
    (m.awaitKey x).stack = m.stack := by
  unfold awaitKey
  split <;> rfl

@[simp] theorem stack_storeBlock (m : Machine) (x : Digit) :
    (m.storeBlock x).stack = m.stack := by
  simp only [storeBlock, stack_advanceIndex]

@[simp] theorem stack_loadBlock (m : Machine) (x : Digit) :
    (m.loadBlock x).stack = m.stack := by
  simp only [loadBlock, stack_advanceIndex]

/-! ## Calls and returns -/

/-- A call fails exactly when every level is in use. -/
theorem call_eq_error_iff {target : UInt16} :
    m.call target = .error f ↔ m.stack.depth = 16 ∧ f = .stackOverflow m.pc := by
  unfold call
  cases h : m.stack.push? (m.pc + 2) with
  | none =>
    have hd := CallStack.push?_eq_none_iff.1 h
    simp [hd, eq_comm]
  | some stack =>
    have hd : m.stack.depth ≠ 16 := by
      intro hd
      rw [CallStack.push?_eq_none_iff.2 hd] at h
      cases h
    simp [hd]

/-- A call that goes through keeps the address of the next word. -/
theorem of_call_eq_ok {target : UInt16} (h : m.call target = .ok n) :
    n.stack.frames = m.stack.frames ++ [m.pc + 2] ∧ n.pc = target := by
  unfold call at h
  cases hp : m.stack.push? (m.pc + 2) with
  | none => simp [hp] at h
  | some stack =>
    simp only [hp, Except.ok.injEq] at h
    subst h
    exact ⟨CallStack.frames_push? hp, rfl⟩

theorem returnFromCall_eq_error_iff :
    m.returnFromCall = .error f ↔ m.stack.depth = 0 ∧ f = .stackUnderflow m.pc := by
  unfold returnFromCall
  cases h : m.stack.pop? with
  | none =>
    have hd := CallStack.pop?_eq_none_iff.1 h
    simp [hd, eq_comm]
  | some popped =>
    have hd : m.stack.depth ≠ 0 := by
      intro hd
      rw [CallStack.pop?_eq_none_iff.2 hd] at h
      cases h
    simp [hd]

/-- A return that goes through continues at the innermost address kept. -/
theorem of_returnFromCall_eq_ok (h : m.returnFromCall = .ok n) :
    m.stack.frames = n.stack.frames ++ [n.pc] := by
  unfold returnFromCall at h
  cases hp : m.stack.pop? with
  | none => simp [hp] at h
  | some popped =>
    obtain ⟨addr, stack⟩ := popped
    simp only [hp, Except.ok.injEq] at h
    subst h
    exact CallStack.frames_pop? hp

/-! ## Instructions -/

/-- The instructions that neither call nor return always go through and
leave the call stack alone. -/
theorem execute_of_not_call (hc : ∀ target, i ≠ .call target) (hr : i ≠ .returnFromCall) :
    ∃ n, m.execute i = .ok n ∧ n.stack = m.stack := by
  cases i with
  | call target => exact absurd rfl (hc target)
  | returnFromCall => exact absurd rfl hr
  | _ => exact ⟨_, rfl, by simp only [stack_next, stack_goTo, stack_skipIf, stack_setV,
      stack_setIndex, stack_compute, stack_drawRandom, stack_drawSprite, stack_awaitKey,
      stack_storeBlock, stack_loadBlock]⟩

/-- **What an instruction does to the call stack**: a call adds the address
of the next word, a return takes the innermost address and goes there, and
no other instruction touches it. -/
theorem stack_of_execute (h : m.execute i = .ok n) :
    (∃ target, i = .call target ∧ n.stack.frames = m.stack.frames ++ [m.pc + 2]) ∨
      (i = .returnFromCall ∧ m.stack.frames = n.stack.frames ++ [n.pc]) ∨
      ((∀ target, i ≠ .call target) ∧ i ≠ .returnFromCall ∧ n.stack = m.stack) := by
  rcases i.call_or_return_or_neither with ⟨target, rfl⟩ | rfl | ⟨hc, hr⟩
  · exact .inl ⟨target, rfl, (of_call_eq_ok h).1⟩
  · exact .inr (.inl ⟨rfl, of_returnFromCall_eq_ok h⟩)
  · obtain ⟨n', hn', hs⟩ := execute_of_not_call (m := m) hc hr
    rw [hn', Except.ok.injEq] at h
    exact .inr (.inr ⟨hc, hr, h ▸ hs⟩)

/-! ## Steps -/

/-- The fault that the next step of a machine runs into, read off the
machine before the step. -/
inductive Faulting (m : Machine) : Fault → Prop
  /-- The word at the program counter is no instruction. -/
  | undecodable (h : Instruction.decode? m.fetch = none) :
      Faulting m (.decode m.pc m.fetch)
  /-- It is a call, and every level is in use. -/
  | callTooDeep {target : Address} (h : Instruction.decode? m.fetch = some (.call target))
      (hd : m.stack.depth = 16) : Faulting m (.stackOverflow m.pc)
  /-- It is a return, and no call is in progress. -/
  | returnWithoutCall (h : Instruction.decode? m.fetch = some .returnFromCall)
      (hd : m.stack.depth = 0) : Faulting m (.stackUnderflow m.pc)

/-- A decoded instruction fails as its call or return does. -/
theorem execute_eq_error_iff (hi : Instruction.decode? m.fetch = some i) :
    m.execute i = .error f ↔ m.Faulting f := by
  constructor
  · intro h
    rcases i.call_or_return_or_neither with ⟨target, rfl⟩ | rfl | ⟨hc, hr⟩
    · obtain ⟨hd, rfl⟩ := call_eq_error_iff.1 h
      exact .callTooDeep hi hd
    · obtain ⟨hd, rfl⟩ := returnFromCall_eq_error_iff.1 h
      exact .returnWithoutCall hi hd
    · obtain ⟨n, hn, -⟩ := execute_of_not_call (m := m) hc hr
      rw [hn] at h
      cases h
  · rintro (h | ⟨h, hd⟩ | ⟨h, hd⟩)
    · rw [hi] at h
      cases h
    · rw [hi, Option.some.injEq] at h
      subst h
      exact call_eq_error_iff.2 ⟨hd, rfl⟩
    · rw [hi, Option.some.injEq] at h
      subst h
      exact returnFromCall_eq_error_iff.2 ⟨hd, rfl⟩

/-- **A step fails exactly in the three cases** of `Faulting`. -/
theorem step_eq_error_iff : m.step = .error f ↔ m.Faulting f := by
  unfold step
  cases hi : Instruction.decode? m.fetch with
  | none =>
    constructor
    · intro h
      rw [← Except.error.inj h]
      exact .undecodable hi
    · rintro (h | ⟨h, -⟩ | ⟨h, -⟩)
      · rfl
      · rw [hi] at h
        cases h
      · rw [hi] at h
        cases h
  | some i => exact execute_eq_error_iff hi

/-- A step that goes through executes the instruction at the program
counter. -/
theorem step_eq_ok_iff :
    m.step = .ok n ↔ ∃ i, Instruction.decode? m.fetch = some i ∧ m.execute i = .ok n := by
  unfold step
  cases Instruction.decode? m.fetch <;> simp

/-- A cycle of a machine without a fault fails exactly when the step does. -/
theorem cycle_fst_eq_error_iff (h : m.fault = none) :
    m.cycle.1 = .error f ↔ m.Faulting f := by
  rw [← step_eq_error_iff]
  cases hs : m.step with
  | ok n => simp [cycle_of_step_ok h hs]
  | error g => simp [cycle_of_step_error h hs]

end Machine

end Chip8
