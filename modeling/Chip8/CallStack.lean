import Chip8.Buffer
/-!
# The call stack

Return addresses of the calls in progress: sixteen slots, of which those
below the depth are in use. The addresses in use, outermost first, are the
stack's `frames`; what an earlier, deeper call left in a slot above the
depth belongs to no frame (`frames_pop?`, `frames_push?`).
-/

namespace Chip8

/-- Sixteen slots and the number of them in use. -/
structure CallStack where
  /-- The slots, outermost call first. -/
  slots : Buffer UInt16 16
  /-- The number of calls in progress. -/
  depth : Nat
  depth_le : depth ≤ 16
deriving DecidableEq

namespace CallStack

/-- The number of levels. -/
def levels : Nat := 16

/-- The stack with no call in progress and blank slots. -/
def empty : CallStack := ⟨Buffer.blank, 0, by decide⟩

/-- The stack with every slot put back and no call in progress. -/
def clear (s : CallStack) : CallStack := ⟨s.slots.fill 0, 0, by decide⟩

/-- The return addresses in use, outermost first. -/
def frames (s : CallStack) : List UInt16 :=
  s.slots.toList.take s.depth

/-- The stack with one more return address, unless every level is in use. -/
def push? (s : CallStack) (addr : UInt16) : Option CallStack :=
  if h : s.depth < 16 then some ⟨s.slots.set s.depth addr h, s.depth + 1, h⟩ else none

/-- The innermost return address and the stack without it, unless no call is
in progress. -/
def pop? (s : CallStack) : Option (UInt16 × CallStack) :=
  match h : s.depth with
  | 0 => none
  | d + 1 =>
    have hd : d < 16 := by
      have := s.depth_le
      omega
    some (s.slots[d], ⟨s.slots, d, by omega⟩)

/-! ## The frames after each operation -/

@[simp] theorem frames_empty : empty.frames = [] := rfl

@[simp] theorem clear_eq (s : CallStack) : s.clear = empty := rfl

@[simp] theorem length_frames (s : CallStack) : s.frames.length = s.depth := by
  have := s.depth_le
  simp only [frames, List.length_take, Vector.length_toList]
  omega

/-- Nothing can be pushed exactly when all levels are in use. -/
theorem push?_eq_none_iff {s : CallStack} {addr : UInt16} :
    s.push? addr = none ↔ s.depth = 16 := by
  have := s.depth_le
  unfold push?
  split <;> simp <;> omega

/-- Nothing can be popped exactly when no level is in use. -/
theorem pop?_eq_none_iff {s : CallStack} : s.pop? = none ↔ s.depth = 0 := by
  unfold pop?
  split <;> simp_all

/-- A push adds its address at the inner end. -/
theorem frames_push? {s t : CallStack} {addr : UInt16} (h : s.push? addr = some t) :
    t.frames = s.frames ++ [addr] := by
  unfold push? at h
  split at h
  · next hd =>
    obtain rfl := Option.some.inj h
    simp only [frames, Vector.toList_set]
    rw [List.take_set, List.take_add_one]
    have hl : s.slots.toList.length = 16 := Vector.length_toList
    have hget : s.slots.toList[s.depth]? = some (s.slots[s.depth]) := by
      simp [hd]
    rw [hget, List.set_append]
    simp [hl, Nat.min_eq_left (Nat.le_of_lt hd)]
  · simp at h

/-- A pop takes the address at the inner end and leaves the others. -/
theorem frames_pop? {s t : CallStack} {addr : UInt16} (h : s.pop? = some (addr, t)) :
    s.frames = t.frames ++ [addr] := by
  unfold pop? at h
  split at h
  · simp at h
  · next d hd =>
    have hs := s.depth_le
    have h16 : d < 16 := by omega
    simp only [Option.some.injEq, Prod.mk.injEq] at h
    obtain ⟨rfl, rfl⟩ := h
    simp only [frames, hd]
    rw [List.take_add_one]
    simp [h16]

end CallStack

end Chip8
