import Chip8.Proofs.Agreement
import Chip8.Proofs.Footprint
import Mathlib.Data.List.Induction
/-!
# Two machines in lockstep

From instructions to cycles, actions and histories. Machines that are equal
but in what may differ reply alike to every action and stay so, as long as
the next step `FindsSame` in both whenever a cycle is asked for
(`EqualBut.perform`). Over a history the difference is given as a function
of the actions so far, and it is enough that it allows, after each action,
what that action leaves of it (`EqualBut.run`).
-/

namespace Chip8

/-! ## The points of a history -/

/-- What holds before every place of a list at which an element stands may
be read off place by place. -/
theorem forall_before_iff {α : Type} {l : List α} {a : α} {p : List α → Prop} :
    (∀ before, before ++ [a] <+: l → p before) ↔
      ∀ k < l.length, l[k]? = some a → p (l.take k) := by
  constructor
  · intro h k hk ha
    apply h
    rw [← (List.getElem?_eq_some_iff.1 ha).2, List.take_append_getElem]
    exact List.take_prefix _ _
  · rintro h before ⟨after, rfl⟩
    have hk := h before.length (by simp) (by simp)
    simpa using hk

namespace Machine

variable {d : Difference} {m n : Machine} {a : Action} {i : Instruction}
  {actions : List Action} {f : Fault}

/-! ## Replies of histories -/

@[simp] theorem length_replies (m : Machine) (actions : List Action) :
    (m.replies actions).length = actions.length := by
  induction actions generalizing m with
  | nil => rfl
  | cons a actions ih => rw [replies, List.length_cons, ih, List.length_cons]

/-- The replies to a history may be cut anywhere. -/
theorem replies_append (m : Machine) (before after : List Action) :
    m.replies (before ++ after) = m.replies before ++ (m.run before).replies after := by
  induction before generalizing m with
  | nil => rfl
  | cons a before ih => rw [List.cons_append, replies, replies, run_cons, ih, List.cons_append]

/-! ## Instructions that are executed -/

/-- A step that fails executes nothing. -/
theorem executed?_of_step_error (hf : m.fault = none) (hs : m.step = .error f) :
    m.executed? .cycle = none := by
  simp only [executed?, cycle_of_step_error hf hs]

/-- An instruction other than a call or a return is executed wherever it
stands at the program counter and there is no fault. -/
theorem executed?_of_not_call (hf : m.fault = none)
    (hi : Instruction.decode? m.fetch = some i) (hc : ∀ target, i ≠ .call target)
    (hr : i ≠ .returnFromCall) : m.executed? .cycle = some i := by
  obtain ⟨n, he, -⟩ := execute_of_not_call (m := m) hc hr
  exact (executed?_cycle_eq_some_iff he).2 ⟨hf, hi⟩

/-! ## One action -/

/-- **The next step finds the same in two machines**: it reads the same word
and, if that is an instruction, the instruction finds the same. -/
structure StepFindsSame (d : Difference) (m n : Machine) : Prop where
  word : ∀ cell ∈ d.cells, ¬Address.InRow m.pc 2 cell
  instruction : ∀ i, Instruction.decode? m.fetch = some i → i.FindsSame d m n

namespace EqualBut

/-- One step of machines in which it finds the same. -/
theorem step (h : m.EqualBut d n) (hs : StepFindsSame d m n) :
    SameOutcome (fun k l => ∃ i, Instruction.decode? m.fetch = some i ∧
      m.execute i = .ok k ∧ k.EqualBut (d.after m n i) l) m.step n.step := by
  unfold Machine.step
  rw [← h.fetch hs.word, ← h.pc]
  cases hi : Instruction.decode? m.fetch with
  | none => exact .error _
  | some i =>
    have hout := h.execute (hs.instruction i hi)
    dsimp only
    cases hm : m.execute i with
    | error f =>
      rw [hm] at hout
      generalize n.execute i = y at hout ⊢
      cases hout
      exact .error f
    | ok k =>
      rw [hm] at hout
      generalize n.execute i = y at hout ⊢
      cases hout with
      | ok hk => exact .ok ⟨i, rfl, hm, hk⟩

theorem cycle (h : m.EqualBut d n) (hs : m.fault = none → StepFindsSame d m n) :
    m.cycle.1 = n.cycle.1 ∧ m.cycle.2.EqualBut (d.afterAction m n .cycle) n.cycle.2 := by
  cases hm : m.fault with
  | some f =>
    have hn : n.fault = some f := h.fault ▸ hm
    rw [cycle_of_fault hm, cycle_of_fault hn, Difference.afterAction, executed?_of_fault hm]
    exact ⟨rfl, h⟩
  | none =>
    have hn : n.fault = none := h.fault ▸ hm
    have hout := h.step (hs hm)
    rcases hsm : m.step with f | k <;> rcases hsn : n.step with g | l <;>
      rw [hsm, hsn] at hout <;> cases hout
    · rw [cycle_of_step_error hm hsm, cycle_of_step_error hn hsn, Difference.afterAction,
        executed?_of_step_error hm hsm]
      exact ⟨rfl, { h with fault := rfl }⟩
    · next hk =>
      obtain ⟨i, hi, he, hk⟩ := hk
      have hx : m.executed? .cycle = some i := (executed?_cycle_eq_some_iff he).2 ⟨hm, hi⟩
      rw [cycle_of_step_ok hm hsm, cycle_of_step_ok hn hsn, Difference.afterAction, hx]
      exact ⟨rfl, hk⟩

/-- The same program is loaded, or refused by both. -/
theorem load (h : m.EqualBut d n) (program : List UInt8) :
    (m.perform (.load program)).1 = (n.perform (.load program)).1 ∧
      (m.act (.load program)).EqualBut d (n.act (.load program)) := by
  simp only [act, perform, loadProgram, Memory.load]
  by_cases hfit : program.length ≤ Memory.room Registers.programStart
  · rw [if_pos hfit, if_pos hfit]
    exact ⟨rfl, { h with
      memory := fun cell hcell => Memory.get_writeBlock_congr (.inl (h.memory cell hcell)) }⟩
  · rw [if_neg hfit, if_neg hfit]
    exact ⟨rfl, h⟩

theorem reset (h : m.EqualBut d n) : m.reset.EqualBut d n.reset := by
  rw [reset_eq_powerOn, reset_eq_powerOn, h.seed]
  exact { EqualBut.refl d (powerOn n.seed n.profile) with profile := h.profile }

/-- Actions other than cycles find nothing out. -/
theorem perform_of_ne_cycle (h : m.EqualBut d n) (ha : a ≠ .cycle) :
    (m.perform a).1 = (n.perform a).1 ∧ (m.act a).EqualBut d (n.act a) := by
  cases a with
  | cycle => exact absurd rfl ha
  | load program => exact h.load program
  | reset => exact ⟨rfl, h.reset⟩
  | timerPeriod =>
    refine ⟨?_, { h with delay := ?_, sound := ?_ }⟩
    · simp only [Machine.perform, Machine.timerPeriod, isSounding, h.sound]
    · simp only [act, Machine.perform, Machine.timerPeriod, h.delay]
    · simp only [act, Machine.perform, Machine.timerPeriod, h.sound]
  | setKeys keys => exact ⟨rfl, { h with keypad := fun _ => rfl }⟩
  | press key =>
    exact ⟨rfl, { h with keypad := fun hd => congrArg (Keypad.press · key) (h.keypad hd) }⟩
  | release key =>
    exact ⟨rfl, { h with keypad := fun hd => congrArg (Keypad.release · key) (h.keypad hd) }⟩
  | acknowledgeRedraw => exact ⟨rfl, { h with redraw := rfl }⟩

/-- **An action of two machines in which it finds the same** has the same
reply, and leaves them equal but in what is left of their difference. -/
theorem perform (h : m.EqualBut d n)
    (hs : a = .cycle → m.fault = none → StepFindsSame d m n) :
    (m.perform a).1 = (n.perform a).1 ∧ (m.act a).EqualBut (d.afterAction m n a) (n.act a) := by
  by_cases ha : a = .cycle
  · subst ha
    obtain ⟨hreply, hafter⟩ := h.cycle (hs rfl)
    exact ⟨congrArg (Except.map fun _ => Reply.done) hreply, hafter⟩
  · rw [Difference.afterAction, executed?_of_ne_cycle ha]
    exact h.perform_of_ne_cycle ha

/-! ## Histories -/

/-- **Two machines go through a history in lockstep** for as long as every
step finds the same in both. What may differ after each of the actions so
far is given by `d`, which has to allow what an action leaves of the
difference before it. -/
theorem run {d : List Action → Difference} (h : m.EqualBut (d []) n)
    (hd : ∀ before a, before ++ [a] <+: actions →
      (d before).afterAction (m.run before) (n.run before) a ≤ d (before ++ [a]))
    (hs : ∀ before, before ++ [.cycle] <+: actions → (m.run before).fault = none →
      (m.run before).EqualBut (d before) (n.run before) →
      StepFindsSame (d before) (m.run before) (n.run before)) :
    m.replies actions = n.replies actions ∧
      (m.run actions).EqualBut (d actions) (n.run actions) := by
  induction actions using List.reverseRecOn with
  | nil => exact ⟨rfl, h⟩
  | append_singleton before a ih =>
    have hprefix : before <+: before ++ [a] := List.prefix_append before [a]
    obtain ⟨hreplies, hbefore⟩ := ih (fun b c hp => hd b c (hp.trans hprefix))
      fun b hp => hs b (hp.trans hprefix)
    have hfinds : a = .cycle → (m.run before).fault = none →
        StepFindsSame (d before) (m.run before) (n.run before) := by
      rintro rfl hf
      exact hs before List.prefix_rfl hf hbefore
    obtain ⟨hreply, hafter⟩ := hbefore.perform hfinds
    rw [replies_append, replies_append, run_append, run_append, hreplies]
    exact ⟨congrArg (fun r => n.replies before ++ [r]) hreply,
      hafter.mono (hd before a List.prefix_rfl)⟩

end EqualBut

end Machine

end Chip8
