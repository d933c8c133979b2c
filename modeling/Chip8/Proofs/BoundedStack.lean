import Chip8.Proofs.Cells
/-!
# The call stack is a list of at most sixteen addresses

A request does to the slots and their count what it does to a list
(`perform_view`), and none of the indices that it takes leaves the slots
(`perform?_cells`). So the requests that were made before, refused ones
among them, decide nothing but the list (`refines_bounded_list`): an address
that a pop left behind in its slot is seen by nobody.
-/

namespace Chip8

open Guarded

namespace CallStack

variable {s t : CallStack} {r : Request} {addr : UInt16}

/-! ## The list -/

/-- The list of the return addresses in use. -/
def view (s : CallStack) : Frames where
  addrs := s.frames
  length_le := by
    rw [length_frames]
    exact s.depth_le

theorem view_of_push? (h : s.push? addr = some t) (hroom : s.view.addrs.length ≠ levels) :
    t.view = s.view.append addr hroom :=
  Frames.ext (frames_push? h)

theorem view_of_pop? (h : s.pop? = some (addr, t)) : t.view = s.view.dropLast := by
  apply Frames.ext
  show t.frames = s.frames.dropLast
  rw [frames_pop? h, List.dropLast_concat]

/-- **A request does to the call stack what it does to the list.** -/
theorem perform_view (s : CallStack) (r : Request) :
    s.view.perform r = ((s.perform r).1, (s.perform r).2.view) := by
  have hlength : s.view.addrs.length = s.depth := s.length_frames
  cases r with
  | push addr =>
    rw [Frames.perform]
    cases hpush : s.push? addr with
    | none =>
      have hfull : s.view.addrs.length = levels := hlength.trans (push?_eq_none_iff.1 hpush)
      rw [dif_pos hfull, perform_push_of_eq_none hpush]
    | some t =>
      have hroom : s.view.addrs.length ≠ levels := by
        intro hfull
        rw [push?_eq_none_iff.2 (hlength.symm.trans hfull)] at hpush
        cases hpush
      rw [dif_neg hroom, perform_push_of_eq_some hpush, view_of_push? hpush hroom]
  | pop =>
    rw [Frames.perform]
    cases hpop : s.pop? with
    | none =>
      have hnil : s.view.addrs = [] := by
        apply List.eq_nil_of_length_eq_zero
        rw [hlength, pop?_eq_none_iff.1 hpop]
      rw [dif_pos hnil, perform_pop_of_eq_none hpop]
    | some p =>
      obtain ⟨addr, t⟩ := p
      have hframes : s.view.addrs = t.frames ++ [addr] := frames_pop? hpop
      have hne : s.view.addrs ≠ [] := by
        rw [hframes]
        exact List.concat_ne_nil addr t.frames
      have hlast : s.view.addrs.getLast hne = addr := by
        simp only [hframes, List.getLast_concat]
      rw [dif_neg hne, hlast, perform_pop_of_eq_some hpop, view_of_pop? hpop]
  | clear => rfl

theorem run_view (s : CallStack) (requests : List Request) :
    (s.run requests).view = s.view.run requests := by
  refine (List.foldl_hom view fun s r => ?_).symm
  rw [perform_view]

/-- A refused request changes nothing, not even a slot above the ones in
use. -/
theorem perform_of_refused {e : Refusal} (h : (s.perform r).1 = .error e) :
    (s.perform r).2 = s := by
  cases r with
  | push addr =>
    cases hpush : s.push? addr with
    | none => rw [perform_push_of_eq_none hpush]
    | some t =>
      rw [perform_push_of_eq_some hpush] at h
      cases h
  | pop =>
    cases hpop : s.pop? with
    | none => rw [perform_pop_of_eq_none hpop]
    | some p =>
      rw [perform_pop_of_eq_some hpop] at h
      cases h
  | clear => cases h

/-! ## The cells -/

/-- The slots in use are inside the slots. -/
theorem frames?_cells (s : CallStack) : s.cells.frames? = some s.frames := by
  have h := s.depth_le
  unfold Stack.frames? Buffer.slice?
  rw [toNat_depth_cells, if_pos ⟨by omega, h⟩]
  rfl

/-- **No index that a request takes leaves the slots**, and the count stays
in its byte. -/
theorem perform?_cells (s : CallStack) (r : Request) :
    s.cells.perform? r = some ((s.perform r).1, (s.perform r).2.cells) := by
  cases r with
  | push addr => exact s.push?_cells addr
  | pop => exact s.pop?_cells
  | clear => rfl

theorem run?_cells (s : CallStack) (requests : List Request) :
    s.cells.run? requests = some (s.run requests).cells := by
  induction requests generalizing s with
  | nil => rfl
  | cons r requests ih =>
    rw [Stack.run?, List.foldlM_cons, perform?_cells, Option.map_some, Option.bind_eq_bind,
      Option.bind_some]
    exact ih (s.perform r).2

end CallStack

/-! ## Any requests -/

/-- **Cells that stand for a list**: as many slots are in use as the list is
long, and they hold its addresses, outermost first. -/
structure Guarded.Stack.Represents (f : Stack) (l : Frames) : Prop where
  depth : f.depth.toNat = l.addrs.length
  frames : f.frames? = some l.addrs

namespace CallStack

theorem represents_cells (s : CallStack) : s.cells.Represents s.view :=
  ⟨s.toNat_depth_cells.trans s.length_frames.symm, s.frames?_cells⟩

/-- **The call stack is a list of at most sixteen addresses.** Through any
requests, refused ones among them, the cells stay inside their slots; they
are those of the call stack then, and stand for the list that the same
requests lead to. A push is refused exactly if that list has sixteen
addresses, and a pop exactly if it has none. The next request, whichever it
is, stays inside the slots as well: its reply is the list's, the cells after
it stand for the list after it, and if it is refused nothing has changed. -/
theorem refines_bounded_list (requests : List Request) :
    let s := empty.run requests
    let l := Frames.empty.run requests
    Stack.blank.run? requests = some s.cells ∧ s.cells.Represents l ∧
      (s.frames = l.addrs ∧ s.depth = l.addrs.length) ∧
      (∀ addr, (s.perform (.push addr)).1 = .error .overflow ↔ l.addrs.length = 16) ∧
      ((s.perform .pop).1 = .error .underflow ↔ l.addrs = []) ∧
      ∀ r, s.cells.perform? r = some ((l.perform r).1, (s.perform r).2.cells) ∧
        (s.perform r).1 = (l.perform r).1 ∧
        (s.perform r).2.cells.Represents (l.perform r).2 ∧
        ((∃ e, (l.perform r).1 = .error e) → (s.perform r).2 = s) := by
  intro s l
  have hview : s.view = l := run_view empty requests
  have hframes : s.frames = l.addrs := congrArg Frames.addrs hview
  have hdepth : s.depth = l.addrs.length := by rw [← hframes, length_frames]
  have hstep : ∀ r, l.perform r = ((s.perform r).1, (s.perform r).2.view) := by
    intro r
    rw [← hview]
    exact s.perform_view r
  refine ⟨run?_cells empty requests, hview ▸ s.represents_cells, ⟨hframes, hdepth⟩,
    fun addr => ?_, ?_, fun r => ?_⟩
  · have hpush := l.perform_push_eq_overflow_iff addr
    rwa [hstep] at hpush
  · have hpop := l.perform_pop_eq_underflow_iff
    rwa [hstep] at hpop
  · rw [hstep]
    refine ⟨s.perform?_cells r, rfl, represents_cells _, ?_⟩
    rintro ⟨e, he⟩
    exact perform_of_refused he

/-- Sixteen addresses put on, each two past the one before. -/
def sixteenPushes : List Request :=
  (List.range 16).map fun n => .push (0x200 + UInt16.ofNat (2 * n))

/-- One push more is refused and changes nothing, so that the pop after it
takes off the sixteenth address. -/
theorem refines_bounded_list_sixteenPushes :
    let s := empty.run sixteenPushes
    (s.perform (.push 0x400)).1 = .error .overflow ∧ (s.perform (.push 0x400)).2 = s ∧
      ((s.perform (.push 0x400)).2.perform .pop).1 = .ok (.address 0x21E) := by
  intro s
  have hfull : ((Frames.empty.run sixteenPushes).perform (.push 0x400)).1 = .error .overflow :=
    rfl
  have hlast : ((Frames.empty.run sixteenPushes).perform .pop).1 = .ok (.address 0x21E) :=
    rfl
  obtain ⟨-, -, -, -, -, hstep⟩ := refines_bounded_list sixteenPushes
  obtain ⟨-, hreply, -, hsame⟩ := hstep (.push 0x400)
  obtain ⟨-, hpop, -, -⟩ := hstep .pop
  have hs : (s.perform (.push 0x400)).2 = s := hsame ⟨.overflow, hfull⟩
  refine ⟨hreply.trans hfull, hs, ?_⟩
  rw [hs]
  exact hpop.trans hlast

/-- What a pop takes off stays in its slot. -/
example :
    let s := empty.run [.push 0x202, .push 0x304, .pop]
    s.frames = [0x202] ∧ s.slots.get 1 = 0x304 := by
  decide

end CallStack

end Chip8
