import Chip8.Guarded.Clock
import Chip8.Proofs.Drift
import Chip8.Proofs.Faults
import Chip8.Proofs.Stepping
/-!
# How much a clock can have left over

The instructions left over never make up a timer period, whatever a clock
is called to do and whether or not a machine fails (`Steady`), so the sums
that lead to them fit with room to spare. The time left over is less than
an instruction costs after a stretch of time that went through; but a
stretch that ends in a fault leaves all its unspent time behind, and the
next one adds to it. Three of them in a row still leave room for the
longest stretch that there is, at any rate (`budget_lt`); after four, the
next sum can leave its word (`fifth_failure_overflows`).
-/

namespace Chip8

/-- The longest stretch of time that whole seconds in a word of 64 bits and
nanoseconds can name. -/
def Elapsed.longest : Elapsed :=
  ofParts (UInt64.size - 1) (second - 1)

namespace Clock

open Guarded

variable {c d : Clock} {m n : Machine} {t : Tick} {ts : List Tick} {f : Fault} {k : Nat}

/-! ## The instructions left over -/

/-- The instructions left over do not make up a timer period. -/
def Steady (c : Clock) : Prop :=
  c.cyclesLeft < c.cpuRate.toNat

theorem steady_withRates (cpuRate timerRate : UInt32) : (withRates cpuRate timerRate).Steady :=
  (withRates cpuRate timerRate).cpuRate_pos

theorem steady_reset (c : Clock) : c.reset.Steady :=
  c.cpuRate_pos

theorem Steady.spend (h : c.Steady) (cost : Nat) : (c.spend cost).Steady := h

theorem steady_tick (h : c.Steady) (m : Machine) : (c.tick m).2.1.Steady := by
  rcases hm : m.cycle with ⟨f | ⟨⟩, n⟩
  · rw [tick_of_cycle_error hm]
    exact h
  · rw [tick_of_cycle_ok hm]
    exact Nat.mod_lt _ c.cpuRate_pos

theorem Ticking.steady (h : Ticking c m ts d n) (hc : c.Steady) : d.Steady := by
  induction h with
  | nil => exact hc
  | @cons c d e l m n t ts h _ ih =>
    have hd := steady_tick hc m
    rw [h] at hd
    exact ih hd

/-- The sum of an instruction and those left over fits into its word. -/
theorem tick?_eq (h : c.Steady) (m : Machine) : c.tick? m = some (c.tick m) := by
  have hsum : c.cyclesLeft + c.timerRate.toNat < UInt64.size := by
    have hcpu : c.cpuRate.toNat < 4294967296 := c.cpuRate.toNat_lt
    have htimer : c.timerRate.toNat < 4294967296 := c.timerRate.toNat_lt
    have hlt : c.cyclesLeft < c.cpuRate.toNat := h
    have hsize : UInt64.size = 18446744073709551616 := rfl
    omega
  have hadd : c.addCycle? = some c.addCycle := addCycle?_eq_some_iff.2 ⟨hsum, rfl⟩
  unfold tick? tick
  rcases m.cycle with ⟨f | ⟨⟩, n⟩
  · rfl
  · rw [hadd]
    rfl

theorem steps?_eq (h : c.Steady) (m : Machine) (total : Tick) (k : Nat) :
    c.steps? m total k = some (c.ticks m 0 total k) := by
  induction k generalizing c m total with
  | zero => rfl
  | succ k ih =>
    have hnext := steady_tick h m
    have hspend : c.spend 0 = c := rfl
    rw [steps?, ticks, tick?_eq h, hspend]
    rcases htick : c.tick m with ⟨f | t, d, n⟩
    · rfl
    · rw [htick] at hnext
      exact ih hnext n _

theorem payTicks?_eq (h : c.Steady) (m : Machine) (total : Tick) :
    c.payTicks? m total = some (c.payTicks m total) := by
  fun_induction payTicks c m total with
  | case1 c m total hle t d n htick ih =>
    have hd := steady_tick (h.spend Elapsed.second) m
    have htick? := tick?_eq (h.spend Elapsed.second) m
    rw [htick] at hd htick?
    rw [payTicks?_of_tick? hle htick?]
    exact ih hd
  | case2 c m total hle f d n htick =>
    have htick? := tick?_eq (h.spend Elapsed.second) m
    rw [htick] at htick?
    rw [payTicks?_of_tick? hle htick?]
  | case3 c m total hlt => rw [payTicks?, if_neg hlt]

/-! ## The time left over -/

/-- Time that a call has left over comes from what was there before it and
what it was given, and after a stretch of time that goes through it does
not pay for an instruction. -/
theorem clock_call (c : Clock) (m : Machine) (x : Call) :
    ∃ ts d n left, Ticking c m ts d n ∧ (c.call m x).2.1 = d.withTime left ∧
      left ≤ c.timeLeft + x.nanoseconds * c.cpuRate.toNat ∧
      (∀ time t, x = .runFor time → (c.call m x).1 = .ok t → left < Elapsed.second) := by
  cases x with
  | tick =>
    rcases h : c.tick m with ⟨f | t, d, n⟩
    · have hd := tick_eq_of_error (c := c) (m := m) (by rw [h])
      refine ⟨[], c, m, c.timeLeft, .nil c m, ?_, Nat.le_add_right _ _, nofun⟩
      show (c.tick m).2.1 = _
      rw [hd]
      rfl
    · refine ⟨[t], d, n, d.timeLeft, .cons h (.nil d n), ?_, ?_, nofun⟩
      · show (c.tick m).2.1 = _
        rw [h]
        rfl
      · rw [timeLeft_tick h]
        exact Nat.le_add_right _ _
  | runSteps k =>
    have hc : c.withTime c.timeLeft = c := rfl
    rcases exists_ticking c m k with ⟨ts, d, n, hts, hk⟩ | ⟨ts, d, n, f, hts, hk, hf⟩
    · have hrow := ticks_of_ticking hts c.timeLeft 0 0 0
      refine ⟨ts, d, n, c.timeLeft, hts, ?_, Nat.le_add_right _ _, nofun⟩
      show (c.ticks m 0 0 k).2.1 = _
      rw [← hk, ← Nat.add_zero ts.length, ← hc, hrow]
      rfl
    · -- instructions cost no time, so a failing one loses none either
      obtain ⟨j, rfl⟩ : ∃ j, k = ts.length + (j + 1) := ⟨k - ts.length - 1, by omega⟩
      have hrow := ticks_of_ticking hts c.timeLeft 0 0 (j + 1)
      rw [ticks_of_tick_error hf] at hrow
      refine ⟨ts, d, n, c.timeLeft, hts, ?_, Nat.le_add_right _ _, nofun⟩
      show (c.ticks m 0 0 _).2.1 = _
      rw [← hc, hrow]
      rfl
  | runFor time =>
    rcases exists_ticking c m (c.budget time / Elapsed.second) with
      ⟨ts, d, n, hts, hk⟩ | ⟨ts, d, n, f, hts, hk, hf⟩
    · have hrun := runFor_of_ticking hts hk
      refine ⟨ts, d, n, _, hts, congrArg (·.2.1) hrun, Nat.mod_le _ _, fun _ _ _ _ => ?_⟩
      exact Nat.mod_lt _ Elapsed.second_pos
    · have hrun := runFor_of_ticking_error hts hk hf
      refine ⟨ts, d, n, _, hts, congrArg (·.2.1) hrun, Nat.sub_le _ _, fun _ t _ hok => ?_⟩
      have herror : (c.runFor m time).1 = .error f := congrArg Prod.fst hrun
      rw [call, herror] at hok
      cases hok

/-! ## What a clock is used for -/

/-- What a clock is used for: a call on a machine in whatever state, or a
reset of the clock. -/
inductive Use
  /-- The clock is called on a machine. -/
  | call (m : Machine) (x : Call)
  /-- The clock forgets what it has left over. -/
  | reset

/-- The nanoseconds that a use gives the clock. -/
def Use.nanoseconds : Use → Nat
  | .call _ x => x.nanoseconds
  | .reset => 0

/-- The clock after a use, whether or not it failed. -/
def use (c : Clock) : Use → Clock
  | .call m x => (c.call m x).2.1
  | .reset => c.reset

/-- The clock after several uses. -/
def useAll (c : Clock) (uses : List Use) : Clock :=
  uses.foldl use c

/-- The stretches of time in a row that ended in a fault, after a use, if
there were `k` before it. A stretch that goes through and a reset start the
count anew. -/
def failuresWith (c : Clock) (k : Nat) : Use → Nat
  | .call m (.runFor time) =>
    match (c.runFor m time).1 with
    | .ok _ => 0
    | .error _ => k + 1
  | .call _ _ => k
  | .reset => 0

/-- The stretches of time in a row that ended in a fault, after several
uses. -/
def failures (c : Clock) (k : Nat) : List Use → Nat
  | [] => k
  | u :: uses => (c.use u).failures (c.failuresWith k u) uses

/-- A clock that is steady, and has no more time left over than so many
failures in a row can leave. -/
structure Bounded (c : Clock) (k : Nat) : Prop where
  steady : c.Steady
  timeLeft_lt :
    c.timeLeft < Elapsed.second + k * (Elapsed.longest.nanoseconds * c.cpuRate.toNat)

theorem bounded_of_timeLeft_lt (hc : c.Steady) (h : c.timeLeft < Elapsed.second) (k : Nat) :
    c.Bounded k :=
  ⟨hc, by omega⟩

theorem bounded_withRates (cpuRate timerRate : UInt32) : (withRates cpuRate timerRate).Bounded 0 :=
  bounded_of_timeLeft_lt (steady_withRates cpuRate timerRate) Elapsed.second_pos 0

theorem Bounded.of_timeLeft_le (h : c.Bounded k) (hd : d.Steady) (hrate : d.cpuRate = c.cpuRate)
    (hle : d.timeLeft ≤ c.timeLeft) : d.Bounded k := by
  refine ⟨hd, ?_⟩
  rw [hrate]
  exact Nat.lt_of_le_of_lt hle h.timeLeft_lt

/-- **One use** keeps the bound: of all uses only a stretch of time that
fails leaves more than it found. -/
theorem Bounded.use (h : c.Bounded k) {u : Use}
    (hu : u.nanoseconds ≤ Elapsed.longest.nanoseconds) :
    (c.use u).Bounded (c.failuresWith k u) := by
  cases u with
  | reset => exact bounded_of_timeLeft_lt (steady_reset c) Elapsed.second_pos 0
  | call m x =>
    obtain ⟨ts, d, n, left, hts, hcall, hleft, hok⟩ := clock_call c m x
    have hd : (d.withTime left).Steady := hts.steady h.steady
    have hrate : (d.withTime left).cpuRate = c.cpuRate := hts.cpuRate_eq
    have hlt := h.timeLeft_lt
    show (c.call m x).2.1.Bounded _
    rw [hcall]
    cases x with
    | tick =>
      rw [Call.nanoseconds, Nat.zero_mul] at hleft
      exact h.of_timeLeft_le hd hrate hleft
    | runSteps steps =>
      rw [Call.nanoseconds, Nat.zero_mul] at hleft
      exact h.of_timeLeft_le hd hrate hleft
    | runFor time =>
      rcases hr : (c.runFor m time).1 with f | t
      · have hk : c.failuresWith k (.call m (.runFor time)) = k + 1 := by
          simp only [failuresWith, hr]
        have hgiven : time.nanoseconds * c.cpuRate.toNat ≤
            Elapsed.longest.nanoseconds * c.cpuRate.toNat := Nat.mul_le_mul_right _ hu
        -- the unspent time of the failure comes on top of all those before it
        refine ⟨hd, ?_⟩
        rw [hrate, hk, Nat.add_mul, Nat.one_mul]
        show left < _
        rw [Call.nanoseconds] at hleft
        omega
      · exact bounded_of_timeLeft_lt hd (hok time t rfl hr) _

/-- **Any number of uses.** -/
theorem Bounded.useAll (h : c.Bounded k) {uses : List Use}
    (hu : ∀ u ∈ uses, u.nanoseconds ≤ Elapsed.longest.nanoseconds) :
    (c.useAll uses).Bounded (c.failures k uses) := by
  induction uses generalizing c k with
  | nil => exact h
  | cons u uses ih =>
    have hfirst := h.use (hu u List.mem_cons_self)
    exact ih hfirst fun v hv => hu v (List.mem_cons_of_mem u hv)

/-- A stretch of time, at any rate, is less than a fourth of what fits. -/
theorem longest_mul_lt (c : Clock) :
    Elapsed.second + 4 * (Elapsed.longest.nanoseconds * c.cpuRate.toNat) < wideSize := by
  have hrate : c.cpuRate.toNat ≤ 4294967295 := Nat.le_of_lt_succ c.cpuRate.toNat_lt
  have hmul : Elapsed.longest.nanoseconds * c.cpuRate.toNat ≤
      Elapsed.longest.nanoseconds * 4294967295 := Nat.mul_le_mul_left _ hrate
  have hmax : Elapsed.second + 4 * (Elapsed.longest.nanoseconds * 4294967295) < wideSize := by
    decide
  exact Nat.lt_of_le_of_lt (Nat.add_le_add_left (Nat.mul_le_mul_left 4 hmul) _) hmax

/-- **After three failures in a row there is still room** for the longest
stretch of time. -/
theorem Bounded.budget_lt (h : c.Bounded k) (hk : k ≤ 3) {time : Elapsed}
    (ht : time.nanoseconds ≤ Elapsed.longest.nanoseconds) : c.budget time < wideSize := by
  have hlt := h.timeLeft_lt
  have hroom := longest_mul_lt c
  have hgiven : time.nanoseconds * c.cpuRate.toNat ≤
      Elapsed.longest.nanoseconds * c.cpuRate.toNat := Nat.mul_le_mul_right _ ht
  have hleft : k * (Elapsed.longest.nanoseconds * c.cpuRate.toNat) ≤
      3 * (Elapsed.longest.nanoseconds * c.cpuRate.toNat) := Nat.mul_le_mul_right _ hk
  rw [budget]
  omega

theorem gain?_eq (c : Clock) (time : Elapsed) :
    c.gain? time = if c.budget time < wideSize then some (c.gain time) else none := by
  unfold gain?
  by_cases h : c.budget time < wideSize
  · have hscaled : time.nanoseconds * c.cpuRate.toNat < wideSize :=
      Nat.lt_of_le_of_lt (Nat.le_add_left _ _) h
    rw [if_pos h, fit?_of_lt hscaled]
    show (fit? wideSize (c.budget time)).bind _ = _
    rw [fit?_of_lt h]
    rfl
  · have hnone : fit? wideSize (c.budget time) = none := fit?_eq_none_iff.2 (Nat.le_of_not_lt h)
    rw [if_neg h]
    rcases hs : fit? wideSize (time.nanoseconds * c.cpuRate.toNat) with _ | scaled
    · rfl
    · have hscaled : scaled = time.nanoseconds * c.cpuRate.toNat := by
        rw [fit?] at hs
        split at hs
        · exact (Option.some.inj hs).symm
        · cases hs
      subst hscaled
      show (fit? wideSize (c.budget time)).bind _ = _
      rw [hnone]
      rfl

theorem runFor?_eq (h : c.Steady) (m : Machine) (time : Elapsed) :
    c.runFor? m time = if c.budget time < wideSize then some (c.runFor m time) else none := by
  rw [runFor?, gain?_eq]
  split
  · exact payTicks?_eq (c := c.gain time) h m 0
  · rfl

/-! ## Whole histories of a clock -/

/-- **The words of a clock.** After any uses of a new clock of any rates, on
machines in any state, the instructions left over do not make up a timer
period, a tick and any number of instructions compute nothing that leaves
its word, and a stretch of time does so only in the sum of its scaled length
and the time left over. That sum fits as well, unless more than three
stretches of time in a row have ended in a fault since the last one that
went through and the last reset. -/
theorem sums_fit (cpuRate timerRate : UInt32) (uses : List Use)
    (hu : ∀ u ∈ uses, u.nanoseconds ≤ Elapsed.longest.nanoseconds) :
    let start := withRates cpuRate timerRate
    let c := start.useAll uses
    c.cyclesLeft < c.cpuRate.toNat ∧
      (∀ m, c.tick? m = some (c.tick m)) ∧
      (∀ m steps, c.steps? m 0 steps = some (c.runSteps m steps)) ∧
      (∀ m time, time.nanoseconds ≤ Elapsed.longest.nanoseconds →
        time.nanoseconds * c.cpuRate.toNat < wideSize ∧
          c.runFor? m time =
            if c.timeLeft + time.nanoseconds * c.cpuRate.toNat < wideSize then
              some (c.runFor m time)
            else none) ∧
      (start.failures 0 uses ≤ 3 → ∀ m time,
        time.nanoseconds ≤ Elapsed.longest.nanoseconds →
          c.runFor? m time = some (c.runFor m time)) := by
  intro start c
  have hc : c.Bounded (start.failures 0 uses) := (bounded_withRates cpuRate timerRate).useAll hu
  refine ⟨hc.steady, tick?_eq hc.steady, fun m steps => steps?_eq hc.steady m 0 steps, ?_, ?_⟩
  · intro m time ht
    have hroom := longest_mul_lt c
    have hgiven : time.nanoseconds * c.cpuRate.toNat ≤
        Elapsed.longest.nanoseconds * c.cpuRate.toNat := Nat.mul_le_mul_right _ ht
    exact ⟨Nat.lt_of_le_of_lt hgiven (by omega), runFor?_eq hc.steady m time⟩
  · intro hk m time ht
    rw [runFor?_eq hc.steady, if_pos (hc.budget_lt hk ht)]

/-- Four of the longest stretches, each of which ends at a lone return. -/
def fourFailures : List Use :=
  List.replicate 4 (.call Console.loneReturn.machine (.runFor Elapsed.longest))

/-- Three of them leave room for one more, whatever its length. -/
theorem sums_fit_threeFailures :
    let start := withRates 4000000000 60
    let uses := fourFailures.drop 1
    let c := start.useAll uses
    (∀ u ∈ uses, u.nanoseconds ≤ Elapsed.longest.nanoseconds) ∧
      Elapsed.longest.nanoseconds ≤ Elapsed.longest.nanoseconds ∧
      start.failures 0 uses = 3 ∧
      c.cyclesLeft < c.cpuRate.toNat ∧
      c.tick? Console.loneReturn.machine = some (c.tick Console.loneReturn.machine) ∧
      c.runFor? Console.loneReturn.machine Elapsed.longest =
        some (c.runFor Console.loneReturn.machine Elapsed.longest) := by
  intro start uses c
  have hu : ∀ u ∈ uses, u.nanoseconds ≤ Elapsed.longest.nanoseconds := by
    intro u hu
    rw [List.eq_of_mem_replicate (List.mem_of_mem_drop hu)]
    exact Nat.le_refl _
  have hk : start.failures 0 uses = 3 := by decide +kernel
  obtain ⟨hsteady, htick, -, -, hfew⟩ := sums_fit 4000000000 60 uses hu
  have ht : Elapsed.longest.nanoseconds ≤ Elapsed.longest.nanoseconds := Nat.le_refl _
  exact ⟨hu, ht, hk, hsteady, htick Console.loneReturn.machine,
    hfew (Nat.le_of_eq hk) Console.loneReturn.machine _ ht⟩

/-- **The sum can leave its word**: after four stretches of time in a row
that ended in a fault, each within the longest that there is, the time left
over and a fifth stretch make more than a word of 128 bits holds. -/
theorem fifth_failure_overflows :
    let start := withRates 4000000000 60
    let fifth := Elapsed.ofParts 11283615435396409401 843651863
    (∀ u ∈ fourFailures, u.nanoseconds ≤ Elapsed.longest.nanoseconds) ∧
      fifth.nanoseconds ≤ Elapsed.longest.nanoseconds ∧
      start.failures 0 fourFailures = 4 ∧
      wideSize ≤
        (start.useAll fourFailures).timeLeft + fifth.nanoseconds * start.cpuRate.toNat ∧
      (start.useAll fourFailures).runFor? Console.loneReturn.machine fifth = none := by
  intro start fifth
  refine ⟨?_, by decide, by decide +kernel, by decide +kernel, by decide +kernel⟩
  intro u hu
  rw [List.eq_of_mem_replicate hu]
  exact Nat.le_refl _

end Clock

end Chip8
