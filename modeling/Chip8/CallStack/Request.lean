import Chip8.CallStack
/-!
# Requests to the call stack

All that can be asked of a call stack, one request after the other: an
address to be put on, the innermost one to be taken off, and all of them to
be forgotten. The first is refused where every level is in use and the
second where none is.

`Frames` answers the same requests with nothing but a list: addresses are
put on at the end of it and taken off from there.
-/

namespace Chip8

namespace CallStack

/-- What can be asked of a call stack. -/
inductive Request
  /-- Put a return address on. -/
  | push (addr : UInt16)
  /-- Take the innermost return address off. -/
  | pop
  /-- Forget every return address. -/
  | clear
deriving DecidableEq, Repr

/-- Why a request is refused. -/
inductive Refusal
  /-- Every level is in use. -/
  | overflow
  /-- No level is in use. -/
  | underflow
deriving DecidableEq, Repr

/-- What a request gives back. -/
inductive Reply
  /-- Nothing but that it is done. -/
  | done
  /-- The address taken off. -/
  | address (addr : UInt16)
deriving DecidableEq, Repr

/-- The reply to a request, or why it is refused, and the call stack after
it. -/
def perform (s : CallStack) : Request → Except Refusal Reply × CallStack
  | .push addr =>
    match s.push? addr with
    | some t => (.ok .done, t)
    | none => (.error .overflow, s)
  | .pop =>
    match s.pop? with
    | some (addr, t) => (.ok (.address addr), t)
    | none => (.error .underflow, s)
  | .clear => (.ok .done, s.clear)

/-- The call stack after a list of requests. -/
def run (s : CallStack) (requests : List Request) : CallStack :=
  requests.foldl (fun s r => (s.perform r).2) s

/-! ## The four outcomes -/

variable {s t : CallStack} {addr : UInt16}

theorem perform_push_of_eq_some (h : s.push? addr = some t) :
    s.perform (.push addr) = (.ok .done, t) := by
  simp only [perform, h]

theorem perform_push_of_eq_none (h : s.push? addr = none) :
    s.perform (.push addr) = (.error .overflow, s) := by
  simp only [perform, h]

theorem perform_pop_of_eq_some (h : s.pop? = some (addr, t)) :
    s.perform .pop = (.ok (.address addr), t) := by
  simp only [perform, h]

theorem perform_pop_of_eq_none (h : s.pop? = none) :
    s.perform .pop = (.error .underflow, s) := by
  simp only [perform, h]

end CallStack

/-- At most sixteen return addresses, outermost first. -/
@[ext] structure Frames where
  /-- The addresses. -/
  addrs : List UInt16
  length_le : addrs.length ≤ CallStack.levels
deriving DecidableEq

namespace Frames

/-- No address at all. -/
def empty : Frames := ⟨[], by decide⟩

/-- The addresses with one more at the end. -/
def append (l : Frames) (addr : UInt16) (h : l.addrs.length ≠ CallStack.levels) : Frames where
  addrs := l.addrs ++ [addr]
  length_le := by
    have := l.length_le
    rw [List.length_append, List.length_singleton]
    omega

/-- The addresses without the one at the end. -/
def dropLast (l : Frames) : Frames where
  addrs := l.addrs.dropLast
  length_le := by
    have := l.length_le
    rw [List.length_dropLast]
    omega

/-- The reply of the list to a request, or why it is refused, and the list
after it. -/
def perform (l : Frames) : CallStack.Request → Except CallStack.Refusal CallStack.Reply × Frames
  | .push addr =>
    if h : l.addrs.length = CallStack.levels then (.error .overflow, l)
    else (.ok .done, l.append addr h)
  | .pop =>
    if h : l.addrs = [] then (.error .underflow, l)
    else (.ok (.address (l.addrs.getLast h)), l.dropLast)
  | .clear => (.ok .done, empty)

/-- The list after a list of requests. -/
def run (l : Frames) (requests : List CallStack.Request) : Frames :=
  requests.foldl (fun l r => (l.perform r).2) l

/-- A push is refused exactly if the list is as long as it may be. -/
theorem perform_push_eq_overflow_iff (l : Frames) (addr : UInt16) :
    (l.perform (.push addr)).1 = .error .overflow ↔ l.addrs.length = CallStack.levels := by
  unfold perform
  by_cases h : l.addrs.length = CallStack.levels <;> simp [h]

/-- A pop is refused exactly if the list is empty. -/
theorem perform_pop_eq_underflow_iff (l : Frames) :
    (l.perform .pop).1 = .error .underflow ↔ l.addrs = [] := by
  unfold perform
  by_cases h : l.addrs = [] <;> simp [h]

end Frames

end Chip8
