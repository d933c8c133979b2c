import Chip8.Proofs.Schedule
/-!
# Calls and returns

The frames of the calls in progress change at the inner end alone: a call
adds one, a return takes one, and every other action but a reset leaves
them (`frames_act`). So the frames of a call stay at the bottom of the
stack for as long as the stack stays as deep (`prefix_frames_run`), and
the return that undoes the call finds its address, whatever the called
code did in between. Counting the same three cases gives the depth of the
stack as the number of calls without the number of returns (`depth_run`).
-/

namespace Chip8

/-- Whether an instruction is a call. -/
def Instruction.isCall : Instruction → Bool
  | .call _ => true
  | _ => false

namespace Machine

variable {m : Machine} {a : Action} {actions : List Action} {base : List UInt16}

/-! ## One action -/

/-- **What an action does to the frames**, by the instruction that it
executes. -/
theorem frames_act (ha : a ≠ .reset) :
    (∃ target, m.executed? a = some (.call target) ∧
        (m.act a).stack.frames = m.stack.frames ++ [m.pc + 2]) ∨
      (m.executed? a = some .returnFromCall ∧
        m.stack.frames = (m.act a).stack.frames ++ [(m.act a).pc]) ∨
      ((∀ target, m.executed? a ≠ some (.call target)) ∧
        m.executed? a ≠ some .returnFromCall ∧
        (m.act a).stack = m.stack) := by
  cases hx : m.executed? a with
  | none => exact .inr (.inr ⟨nofun, nofun, (sameCourse_act ha hx).stack⟩)
  | some i =>
    obtain ⟨-, -, -, he⟩ := executed?_eq_some_iff.1 hx
    rcases stack_of_execute he with ⟨target, rfl, h⟩ | ⟨rfl, h⟩ | ⟨hc, hr, h⟩
    · exact .inl ⟨target, rfl, h⟩
    · exact .inr (.inl ⟨rfl, h⟩)
    · refine .inr (.inr ⟨fun target e => hc target (Option.some.inj e), ?_, h⟩)
      exact fun e => hr (Option.some.inj e)

/-- Frames at the bottom of the stack stay there under an action that
leaves the stack as deep as they are. -/
theorem prefix_frames_act (ha : a ≠ .reset) (hb : base <+: m.stack.frames)
    (hd : base.length ≤ (m.act a).stack.depth) : base <+: (m.act a).stack.frames := by
  rcases frames_act (m := m) ha with ⟨-, -, h⟩ | ⟨-, h⟩ | ⟨-, -, h⟩
  · rw [h]
    exact hb.trans (List.prefix_append _ _)
  · -- the frame that a return takes lies above all of `base`
    rw [h] at hb
    exact List.prefix_of_prefix_length_le hb (List.prefix_append _ _)
      (by rwa [CallStack.length_frames])
  · rwa [h]

/-- The depth moves by the instruction that an action executes. -/
theorem depth_act (ha : a ≠ .reset) :
    (m.act a).stack.depth + (m.executed? a).toList.count .returnFromCall =
      m.stack.depth + (m.executed? a).toList.countP Instruction.isCall := by
  have hlen : (m.act a).stack.frames.length = (m.act a).stack.depth :=
    CallStack.length_frames _
  have hlen' : m.stack.frames.length = m.stack.depth := CallStack.length_frames _
  rcases frames_act (m := m) ha with ⟨target, hx, h⟩ | ⟨hx, h⟩ | ⟨hc, hr, h⟩
  · rw [h, List.length_append] at hlen
    simp only [hx, Option.toList_some, List.length_singleton] at hlen ⊢
    have hcount : [Instruction.call target].count .returnFromCall = 0 := rfl
    have hcall : [Instruction.call target].countP Instruction.isCall = 1 := rfl
    omega
  · rw [h, List.length_append, List.length_singleton] at hlen'
    simp only [hx, Option.toList_some]
    have hcount : [Instruction.returnFromCall].count .returnFromCall = 1 := rfl
    have hcall : [Instruction.returnFromCall].countP Instruction.isCall = 0 := rfl
    omega
  · rw [h]
    cases hx : m.executed? a with
    | none => rfl
    | some i =>
      have hcount : [i].count .returnFromCall = 0 :=
        List.count_eq_zero.2 fun hm => hr (by rw [hx, List.mem_singleton.1 hm])
      have hcall : [i].countP Instruction.isCall = 0 := by
        cases i with
        | call target => exact absurd hx (hc target)
        | _ => rfl
      simp only [Option.toList_some, hcount, hcall]

/-! ## Histories -/

/-- **The frames of a call survive what is called**: frames at the bottom
of the stack stay there for as long as the stack stays as deep as they
are. -/
theorem prefix_frames_run (hr : Action.reset ∉ actions) (hb : base <+: m.stack.frames)
    (hd : ∀ before, before <+: actions → base.length ≤ (m.run before).stack.depth) :
    base <+: (m.run actions).stack.frames := by
  induction actions generalizing m with
  | nil => exact hb
  | cons a actions ih =>
    rw [List.mem_cons, not_or] at hr
    have ha : base.length ≤ (m.act a).stack.depth :=
      hd [a] (List.cons_prefix_cons.2 ⟨rfl, List.nil_prefix⟩)
    refine ih hr.2 (prefix_frames_act (fun e => hr.1 e.symm) hb ha) fun before hp => ?_
    exact hd (a :: before) (List.cons_prefix_cons.2 ⟨rfl, hp⟩)

/-- The depth counts the calls that were executed, less the returns. -/
theorem depth_run (hr : Action.reset ∉ actions) :
    (m.run actions).stack.depth + (m.executed actions).count .returnFromCall =
      m.stack.depth + (m.executed actions).countP Instruction.isCall := by
  induction actions generalizing m with
  | nil => rfl
  | cons a actions ih =>
    rw [List.mem_cons, not_or] at hr
    have hact := depth_act (m := m) fun e => hr.1 e.symm
    have hrun := ih (m := m.act a) hr.2
    rw [run_cons, executed_cons, List.count_append, List.countP_append]
    omega

/-- A cycle at a call with a level left is a call. -/
theorem executed?_call {target : Address} (hf : m.fault = none)
    (hi : Instruction.decode? m.fetch = some (.call target)) (hd : m.stack.depth < 16) :
    m.executed? .cycle = some (.call target) := by
  cases hx : m.executed? .cycle with
  | some i =>
    obtain ⟨-, -, h, -⟩ := executed?_eq_some_iff.1 hx
    rw [← h, hi]
  | none =>
    obtain ⟨f, hc⟩ := act_cycle_of_executed?_eq_none hx
    have hfaulting : m.Faulting f := (cycle_fst_eq_error_iff hf).1 (by rw [hc])
    cases hfaulting with
    | undecodable h =>
      rw [hi] at h
      cases h
    | callTooDeep h hd' => omega
    | returnWithoutCall h =>
      rw [hi] at h
      cases h

/-- After a call its frame lies above those before it. -/
theorem frames_act_call {target : Address} (hx : m.executed? .cycle = some (.call target)) :
    (m.act .cycle).stack.frames = m.stack.frames ++ [m.pc + 2] := by
  obtain ⟨-, -, -, he⟩ := executed?_eq_some_iff.1 hx
  exact (of_call_eq_ok he).1

/-- **The action that undoes a call is its return**: with the frames of the
call at the bottom of the stack, an action that leaves the stack one frame
short of them is a return to the address that the call kept. -/
theorem return_of_depth_act {frames : List UInt16} {addr : UInt16} (ha : a ≠ .reset)
    (hb : frames ++ [addr] <+: m.stack.frames)
    (hd : (m.act a).stack.depth = frames.length) :
    m.executed? a = some .returnFromCall ∧ (m.act a).pc = addr ∧
      (m.act a).stack.frames = frames := by
  have hle := hb.length_le
  rw [← CallStack.length_frames] at hd
  rw [List.length_append, List.length_singleton] at hle
  -- a call, or anything but a return, would leave the stack too deep
  rcases frames_act (m := m) ha with ⟨target, -, h⟩ | ⟨hx, h⟩ | ⟨-, -, h⟩
  · rw [h, List.length_append] at hd
    omega
  · rw [h] at hb
    have heq : frames ++ [addr] = (m.act a).stack.frames ++ [(m.act a).pc] :=
      hb.eq_of_length (by simp only [List.length_append, List.length_singleton, hd])
    obtain ⟨hframes, haddr⟩ := List.append_inj heq hd.symm
    exact ⟨hx, (List.singleton_inj.1 haddr).symm, hframes.symm⟩
  · rw [h] at hd
    omega

end Machine

namespace Console

/-- The instructions that a list of commands executes. -/
def executed (s : Console) (commands : List Command) : List Instruction :=
  s.machine.executed (s.runActions commands)

/-- **Calls and returns are well bracketed.** Let a call be executed with a
level of the stack left, and let actions follow under which the stack
stays deeper than before the call, until one brings it back. That one is a
return, it goes on at the word after the call, and the frames are those
before the call. And along every history since a reset, clock included,
the depth is the number of calls executed less the number of returns. -/
theorem calls_bracketed :
    (∀ (m : Machine) (target : Address) (actions : List Machine.Action) (a : Machine.Action),
      m.fault = none → Instruction.decode? m.fetch = some (.call target) →
      m.stack.depth < 16 → Machine.Action.reset ∉ actions → a ≠ .reset →
      (∀ before, before <+: actions →
        m.stack.depth < ((m.act .cycle).run before).stack.depth) →
      (((m.act .cycle).run actions).act a).stack.depth = m.stack.depth →
      let n := (m.act .cycle).run actions
      n.executed? a = some .returnFromCall ∧ (n.act a).pc = m.pc + 2 ∧
        (n.act a).stack.frames = m.stack.frames) ∧
    (∀ (s : Console) (commands : List Command), Command.machine .reset ∉ commands →
      let t := s.act (.machine .reset)
      (t.run commands).machine.stack.depth + (t.executed commands).count .returnFromCall =
          (t.executed commands).countP Instruction.isCall ∧
        (t.run commands).machine.stack.depth ≤ 16) := by
  constructor
  · intro m target actions a hf hi hd hr ha habove hback n
    have hcall := Machine.frames_act_call (Machine.executed?_call hf hi hd)
    -- the frames of the call stay at the bottom up to the action in question
    have hb : m.stack.frames ++ [m.pc + 2] <+: n.stack.frames := by
      refine Machine.prefix_frames_run hr (hcall ▸ List.prefix_rfl) fun before hp => ?_
      rw [List.length_append, List.length_singleton, CallStack.length_frames]
      exact habove before hp
    exact Machine.return_of_depth_act ha hb (by rw [CallStack.length_frames]; exact hback)
  · intro s commands hr t
    have hdepth := Machine.depth_run (m := t.machine) (reset_not_mem_runActions (s := t) hr)
    have hzero : t.machine.stack.depth = 0 := rfl
    rw [hzero, Nat.zero_add] at hdepth
    refine ⟨?_, (t.run commands).machine.stack.depth_le⟩
    rw [machine_run]
    exact hdepth

/-- A call within a call: the program calls 0x206, which calls 0x20A, and
both return. -/
def nestedCalls : List UInt8 :=
  [0x22, 0x06, 0x12, 0x02, 0x00, 0x00, 0x22, 0x0A, 0x00, 0xEE, 0x00, 0xEE]

/-- The outer call of `nestedCalls` returns behind itself, also when a load
erases the inner call while it is in progress. -/
theorem calls_bracketed_nestedCalls :
    let m := (Machine.powerOn 0 Profile.standard).act (.load nestedCalls)
    let actions := [Machine.Action.cycle, .timerPeriod, .load (List.replicate 8 0), .cycle]
    let n := (m.act .cycle).run actions
    let t : Console := ⟨m, Clock.withRates 500 60⟩
    let commands := [Command.machine (.load nestedCalls), .runSteps 3, .machine .cycle]
    (m.fault = none ∧ Instruction.decode? m.fetch = some (.call 0x206) ∧
      m.stack.depth < 16 ∧ Machine.Action.reset ∉ actions ∧
      (∀ before, before <+: actions →
        m.stack.depth < ((m.act .cycle).run before).stack.depth) ∧
      (n.act .cycle).stack.depth = m.stack.depth ∧
      n.executed? .cycle = some .returnFromCall ∧ (n.act .cycle).pc = 0x202 ∧
      (n.act .cycle).stack.frames = []) ∧
    (Command.machine .reset ∉ commands ∧
      ((t.act (.machine .reset)).run commands).machine.stack.depth +
          ((t.act (.machine .reset)).executed commands).count .returnFromCall =
        ((t.act (.machine .reset)).executed commands).countP Instruction.isCall) := by
  intro m actions n t commands
  have hf : m.fault = none := rfl
  have hi : Instruction.decode? m.fetch = some (.call 0x206) := by decide +kernel
  have hd : m.stack.depth < 16 := by decide +kernel
  have hr : Machine.Action.reset ∉ actions := by decide
  have htake : ∀ k < 5, m.stack.depth < ((m.act .cycle).run (actions.take k)).stack.depth := by
    decide +kernel
  have habove : ∀ before, before <+: actions →
      m.stack.depth < ((m.act .cycle).run before).stack.depth := by
    intro before hp
    have hle : before.length ≤ 4 := hp.length_le
    rw [List.prefix_iff_eq_take.1 hp]
    exact htake before.length (by omega)
  have hback : (n.act .cycle).stack.depth = m.stack.depth := by decide +kernel
  have hc : Command.machine .reset ∉ commands := by simp [commands]
  obtain ⟨hx, hpc, hframes⟩ :=
    calls_bracketed.1 m 0x206 actions .cycle hf hi hd hr nofun habove hback
  exact ⟨⟨hf, hi, hd, hr, habove, hback, hx, hpc, hframes⟩,
    hc, (calls_bracketed.2 t commands hc).1⟩

end Console

end Chip8
