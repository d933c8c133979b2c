import Chip8.Clock
import Chip8.Machine.Action
/-!
# The clock does not drift

A clock is called to tick, to run a number of instructions or to spend a
stretch of time, on one machine after another. What it reports and what it
has left over always account for all that it was given: an instruction
costs a second of scaled time or was asked for by number, and a timer
period costs as many scaled instructions as there are in a second
(`Balanced`). Since neither remainder ever reaches the price of one unit,
the totals are the exact quotients (`totals_of_calls`), in whatever order
the calls come and however the time is cut.
-/

namespace Chip8

namespace Clock

/-- A call that makes a clock drive a machine. -/
inductive Call
  /-- One instruction. -/
  | tick
  /-- A number of instructions. -/
  | runSteps (steps : Nat)
  /-- As many instructions as fit into a stretch of time. -/
  | runFor (time : Elapsed)

/-- What a clock does when it is called on a machine. -/
def call (c : Clock) (m : Machine) : Call → Except Fault Tick × Clock × Machine
  | .tick => c.tick m
  | .runSteps steps => c.runSteps m steps
  | .runFor time => c.runFor m time

/-- The instructions that a call asks for by number. -/
def Call.steps : Call → Nat
  | .tick => 1
  | .runSteps steps => steps
  | .runFor _ => 0

/-- The nanoseconds that a call gives the clock. -/
def Call.nanoseconds : Call → Nat
  | .tick | .runSteps _ => 0
  | .runFor time => time.nanoseconds

/-- The ticks that several calls report, added up, and the clock after
them, or the first fault. Each call is made on a machine of its own, in
whatever state that machine is. -/
def callAll (c : Clock) : List (Machine × Call) → Except Fault (Tick × Clock)
  | [] => .ok (0, c)
  | (m, x) :: calls =>
    match c.call m x with
    | (.error f, _, _) => .error f
    | (.ok t, d, _) => (d.callAll calls).map fun (u, e) => (t + u, e)

/-- The instructions that several calls ask for by number. -/
def totalSteps : List (Machine × Call) → Nat
  | [] => 0
  | (_, x) :: calls => x.steps + totalSteps calls

/-- The nanoseconds that several calls give the clock. -/
def totalNanoseconds : List (Machine × Call) → Nat
  | [] => 0
  | (_, x) :: calls => x.nanoseconds + totalNanoseconds calls

variable {c d e : Clock} {m n : Machine} {t u : Tick}

/-! ## Ticks -/

/-- What `k` ticks that all went through do to the books of a clock, at a
cost of scaled time for each. -/
structure Ticked (c d : Clock) (k cost : Nat) (t : Tick) : Prop where
  cpuRate : d.cpuRate = c.cpuRate
  timerRate : d.timerRate = c.timerRate
  cycles : t.cycles = k
  timeLeft : d.timeLeft + k * cost = c.timeLeft
  periods : t.timerPeriods * c.cpuRate.toNat + d.cyclesLeft =
    k * c.timerRate.toNat + c.cyclesLeft
  cyclesLeft_lt : c.cyclesLeft < c.cpuRate.toNat → d.cyclesLeft < c.cpuRate.toNat

theorem of_tick_eq_ok (h : c.tick m = (.ok t, d, n)) :
    t.cycles = 1 ∧ t.timerPeriods = c.periodsDue ∧ d = c.afterCycle := by
  rcases hm : m.cycle with ⟨_ | ⟨⟩, m'⟩
  · simp only [tick_of_cycle_error hm, Prod.mk.injEq, reduceCtorEq, false_and] at h
  · simp only [tick_of_cycle_ok hm, Prod.mk.injEq, Except.ok.injEq] at h
    obtain ⟨rfl, rfl, -⟩ := h
    exact ⟨rfl, rfl, rfl⟩

/-- One tick, paid for out of the time left over. -/
theorem ticked_tick {cost : Nat} (hc : cost ≤ c.timeLeft)
    (h : (c.spend cost).tick m = (.ok t, d, n)) : Ticked c d 1 cost t := by
  obtain ⟨hcycles, hperiods, rfl⟩ := of_tick_eq_ok h
  have hdiv := Nat.div_add_mod' (c.cyclesLeft + c.timerRate.toNat) c.cpuRate.toNat
  refine ⟨rfl, rfl, hcycles, ?_, ?_, fun _ => Nat.mod_lt _ c.cpuRate_pos⟩
  · show c.timeLeft - cost + 1 * cost = c.timeLeft
    omega
  · rw [hperiods]
    show (c.cyclesLeft + c.timerRate.toNat) / c.cpuRate.toNat * c.cpuRate.toNat +
      (c.cyclesLeft + c.timerRate.toNat) % c.cpuRate.toNat = _
    omega

theorem Ticked.trans {j k cost : Nat} (h : Ticked c d j cost t) (g : Ticked d e k cost u) :
    Ticked c e (j + k) cost (t + u) where
  cpuRate := g.cpuRate.trans h.cpuRate
  timerRate := g.timerRate.trans h.timerRate
  cycles := by rw [Tick.cycles_add, h.cycles, g.cycles]
  timeLeft := by
    have h₁ := h.timeLeft
    have h₂ := g.timeLeft
    rw [Nat.add_mul]
    omega
  periods := by
    have h₁ := h.periods
    have h₂ := g.periods
    rw [h.cpuRate, h.timerRate] at h₂
    rw [Tick.timerPeriods_add, Nat.add_mul, Nat.add_mul]
    omega
  cyclesLeft_lt := by
    have h₂ := g.cyclesLeft_lt
    rw [h.cpuRate] at h₂
    exact fun hlt => h₂ (h.cyclesLeft_lt hlt)

/-- **Several ticks**, when the time left over pays for all of them. -/
theorem ticked_ticks {cost k : Nat} {total : Tick} (hc : k * cost ≤ c.timeLeft)
    (h : c.ticks m cost total k = (.ok t, d, n)) :
    ∃ u, t = total + u ∧ Ticked c d k cost u := by
  induction k generalizing c m total with
  | zero =>
    simp only [ticks, Prod.mk.injEq, Except.ok.injEq] at h
    obtain ⟨rfl, rfl, -⟩ := h
    exact ⟨0, (Tick.add_zero _).symm, rfl, rfl, rfl, by omega, by simp, id⟩
  | succ k ih =>
    rw [Nat.add_mul, Nat.one_mul] at hc
    unfold ticks at h
    rcases hm : (c.spend cost).tick m with ⟨_ | t₁, c₁, m₁⟩
    · simp only [hm, Prod.mk.injEq, reduceCtorEq, false_and] at h
    · rw [hm] at h
      have h₁ : Ticked c c₁ 1 cost t₁ := ticked_tick (by omega) hm
      have hleft := h₁.timeLeft
      -- the first tick took one cost, so the rest still pays for the others
      obtain ⟨u, hu, h₂⟩ := ih (by omega) h
      refine ⟨t₁ + u, by rw [hu, Tick.add_assoc], ?_⟩
      rw [Nat.add_comm k 1]
      exact h₁.trans h₂

/-- Instructions asked for by number cost no time. -/
theorem ticked_runSteps {k : Nat} (h : c.runSteps m k = (.ok t, d, n)) : Ticked c d k 0 t := by
  obtain ⟨u, hu, g⟩ := ticked_ticks (by rw [Nat.mul_zero]; exact Nat.zero_le _) h
  rw [Tick.zero_add] at hu
  exact hu ▸ g

/-- A stretch of time runs the instructions that it pays for. -/
theorem ticked_runFor {time : Elapsed} (h : c.runFor m time = (.ok t, d, n)) :
    Ticked (c.gain time) d (c.gain time).affordable Elapsed.second t := by
  rw [runFor, payTicks_eq] at h
  obtain ⟨u, hu, g⟩ := ticked_ticks (Nat.div_mul_le_self _ _) h
  rw [Tick.zero_add] at hu
  exact hu ▸ g

/-! ## Calls -/

/-- **The books of a clock of two rates balance**: all that it was given
since it had nothing left over, steps and time, is in the ticks that it
reported or left over, and what is left over pays for nothing. -/
structure Balanced (cpuRate timerRate : UInt32) (c : Clock) (steps nanoseconds : Nat)
    (t : Tick) : Prop where
  cpuRate_eq : c.cpuRate = cpuRate
  timerRate_eq : c.timerRate = timerRate
  time : t.cycles * Elapsed.second + c.timeLeft =
    steps * Elapsed.second + nanoseconds * cpuRate.toNat
  periods : t.timerPeriods * cpuRate.toNat + c.cyclesLeft = t.cycles * timerRate.toNat
  timeLeft_lt : c.timeLeft < Elapsed.second
  cyclesLeft_lt : c.cyclesLeft < cpuRate.toNat

variable {cpuRate timerRate : UInt32} {steps nanoseconds : Nat}

theorem balanced_reset (c : Clock) : Balanced c.cpuRate c.timerRate c.reset 0 0 0 where
  cpuRate_eq := rfl
  timerRate_eq := rfl
  time := by simp [reset]
  periods := by simp [reset]
  timeLeft_lt := Elapsed.second_pos
  cyclesLeft_lt := c.cpuRate_pos

theorem Ticked.periods_add {k cost : Nat} (g : Ticked c d k cost u)
    (h : t.timerPeriods * c.cpuRate.toNat + c.cyclesLeft = t.cycles * c.timerRate.toNat) :
    (t + u).timerPeriods * c.cpuRate.toNat + d.cyclesLeft =
      (t + u).cycles * c.timerRate.toNat := by
  have hperiods := g.periods
  rw [Tick.timerPeriods_add, Tick.cycles_add, g.cycles, Nat.add_mul, Nat.add_mul]
  omega

/-- The books balance after instructions that were asked for by number. -/
theorem Balanced.after_steps {k : Nat} (h : Balanced cpuRate timerRate c steps nanoseconds t)
    (g : Ticked c d k 0 u) :
    Balanced cpuRate timerRate d (steps + k) nanoseconds (t + u) := by
  obtain ⟨rfl, rfl, htime, hperiods, htimeLeft, hcyclesLeft⟩ := h
  have hleft := g.timeLeft
  rw [Nat.mul_zero, Nat.add_zero] at hleft
  refine ⟨g.cpuRate, g.timerRate, ?_, g.periods_add hperiods, by omega,
    g.cyclesLeft_lt hcyclesLeft⟩
  rw [Tick.cycles_add, g.cycles, Nat.add_mul, Nat.add_mul]
  omega

/-- The books balance after a stretch of time. -/
theorem Balanced.after_time {time : Elapsed}
    (h : Balanced cpuRate timerRate c steps nanoseconds t)
    (g : Ticked (c.gain time) d (c.gain time).affordable Elapsed.second u) :
    Balanced cpuRate timerRate d steps (nanoseconds + time.nanoseconds) (t + u) := by
  obtain ⟨rfl, rfl, htime, hperiods, htimeLeft, hcyclesLeft⟩ := h
  have hleft := g.timeLeft
  have hgain : (c.gain time).timeLeft = c.timeLeft + time.nanoseconds * c.cpuRate.toNat := rfl
  have hspent : (c.gain time).affordable * Elapsed.second +
      (c.gain time).timeLeft % Elapsed.second = (c.gain time).timeLeft :=
    Nat.div_add_mod' _ _
  have hlt := Nat.mod_lt (c.gain time).timeLeft Elapsed.second_pos
  -- as many instructions were run as could be paid for, so the rest pays for none
  refine ⟨g.cpuRate, g.timerRate, ?_, g.periods_add hperiods, by omega,
    g.cyclesLeft_lt hcyclesLeft⟩
  rw [Tick.cycles_add, g.cycles, Nat.add_mul, Nat.add_mul]
  omega

theorem balanced_call {x : Call} (h : Balanced cpuRate timerRate c steps nanoseconds t)
    (hc : c.call m x = (.ok u, d, n)) :
    Balanced cpuRate timerRate d (steps + x.steps) (nanoseconds + x.nanoseconds) (t + u) := by
  cases x with
  | tick => exact h.after_steps (ticked_tick (Nat.zero_le _) hc)
  | runSteps k => exact h.after_steps (ticked_runSteps hc)
  | runFor time => exact h.after_time (ticked_runFor hc)

theorem of_callAll_cons_eq_ok {x : Call} {calls : List (Machine × Call)}
    (h : c.callAll ((m, x) :: calls) = .ok (t, e)) :
    ∃ u d n v, c.call m x = (.ok u, d, n) ∧ d.callAll calls = .ok (v, e) ∧ t = u + v := by
  unfold callAll at h
  rcases hm : c.call m x with ⟨_ | u, d, n⟩
  · simp only [hm, reduceCtorEq] at h
  · simp only [hm] at h
    rcases hv : d.callAll calls with _ | ⟨v, e'⟩
    · simp only [hv, Except.map, reduceCtorEq] at h
    · simp only [hv, Except.map, Except.ok.injEq, Prod.mk.injEq] at h
      obtain ⟨rfl, rfl⟩ := h
      exact ⟨u, d, n, v, rfl, hv, rfl⟩

/-- **The books balance after any calls that all go through.** -/
theorem balanced_callAll {calls : List (Machine × Call)}
    (h : Balanced cpuRate timerRate c steps nanoseconds t) (hc : c.callAll calls = .ok (u, d)) :
    Balanced cpuRate timerRate d (steps + totalSteps calls)
      (nanoseconds + totalNanoseconds calls) (t + u) := by
  induction calls generalizing c steps nanoseconds t u with
  | nil =>
    simp only [callAll, Except.ok.injEq, Prod.mk.injEq] at hc
    obtain ⟨rfl, rfl⟩ := hc
    exact (Tick.add_zero t).symm ▸ h
  | cons call calls ih =>
    obtain ⟨m, x⟩ := call
    obtain ⟨u₁, c₁, n, u₂, hx, hrest, rfl⟩ := of_callAll_cons_eq_ok hc
    have hb := ih (balanced_call h hx) hrest
    rw [Nat.add_assoc, Nat.add_assoc, Tick.add_assoc] at hb
    exact hb

/-! ## The exact totals -/

/-- The quotients and the remainders that balanced books leave. -/
theorem Balanced.totals (h : Balanced cpuRate timerRate c steps nanoseconds t) :
    t.cycles = steps + nanoseconds * cpuRate.toNat / Elapsed.second ∧
      t.timerPeriods = t.cycles * timerRate.toNat / cpuRate.toNat ∧
      c.timeLeft = nanoseconds * cpuRate.toNat % Elapsed.second ∧
      c.cyclesLeft = t.cycles * timerRate.toNat % cpuRate.toNat := by
  obtain ⟨rfl, rfl, htime, hperiods, htimeLeft, hcyclesLeft⟩ := h
  -- a remainder below the divisor pins the quotient down
  obtain ⟨hquot, hrem⟩ := (Nat.div_mod_unique c.cpuRate_pos).2
    ⟨(Nat.add_comm _ _).trans (Nat.mul_comm _ _ ▸ hperiods), hcyclesLeft⟩
  have hdiv := Nat.div_add_mod' (nanoseconds * c.cpuRate.toNat) Elapsed.second
  have hlt := Nat.mod_lt (nanoseconds * c.cpuRate.toNat) Elapsed.second_pos
  unfold Elapsed.second at *
  refine ⟨by omega, hquot.symm, by omega, hrem.symm⟩

/-- **No drift.** From a clock with nothing left over, and for calls in any
order on machines in any states that all go through, the instructions are
those asked for and the whole ones that all the time pays for, the timer
periods are the whole ones that all the instructions make up, and what is
left over is exactly the two remainders. A rate of zero counts as one. -/
theorem totals_of_calls (cpuRate timerRate : UInt32)
    (hc : c = withRates cpuRate timerRate ∨
      ∃ b : Clock, b.cpuRate = atLeastOne cpuRate ∧ b.timerRate = atLeastOne timerRate ∧
        c = b.reset)
    {calls : List (Machine × Call)} (h : c.callAll calls = .ok (t, d)) :
    t.cycles = totalSteps calls +
        totalNanoseconds calls * (atLeastOne cpuRate).toNat / Elapsed.second ∧
      t.timerPeriods =
        t.cycles * (atLeastOne timerRate).toNat / (atLeastOne cpuRate).toNat ∧
      d.timeLeft = totalNanoseconds calls * (atLeastOne cpuRate).toNat % Elapsed.second ∧
      d.cyclesLeft = t.cycles * (atLeastOne timerRate).toNat % (atLeastOne cpuRate).toNat := by
  -- a new clock is a clock of its rates that was reset
  obtain ⟨b, hcpu, htimer, rfl⟩ : ∃ b : Clock, b.cpuRate = atLeastOne cpuRate ∧
      b.timerRate = atLeastOne timerRate ∧ c = b.reset := by
    rcases hc with rfl | hc
    · exact ⟨withRates cpuRate timerRate, rfl, rfl, rfl⟩
    · exact hc
  have hb := (balanced_callAll (balanced_reset b) h).totals
  rw [Nat.zero_add, Nat.zero_add, Tick.zero_add, hcpu, htimer] at hb
  exact hb

/-- A program that jumps to itself. -/
def standstill : List UInt8 := [0x12, 0x00]

/-- Three instructions asked for and half a second at three in a second,
with seven timer periods in a second: four instructions and nine periods,
half an instruction and a third of a period left over. -/
theorem totals_of_calls_standstill :
    let m := (Machine.powerOn 0 Profile.standard).act (.load standstill)
    let calls := [(m, Call.runFor ⟨500000000⟩), (m, .tick), (m, .runSteps 2)]
    let d : Clock := { withRates 3 7 with timeLeft := 500000000, cyclesLeft := 1 }
    (withRates 3 7).callAll calls = .ok (⟨4, 9, 0⟩, d) ∧
      (4 = totalSteps calls +
          totalNanoseconds calls * (atLeastOne 3).toNat / Elapsed.second ∧
        9 = 4 * (atLeastOne 7).toNat / (atLeastOne 3).toNat ∧
        d.timeLeft = totalNanoseconds calls * (atLeastOne 3).toNat % Elapsed.second ∧
        d.cyclesLeft = 4 * (atLeastOne 7).toNat % (atLeastOne 3).toNat) := by
  intro m calls d
  have hopt : ((withRates 3 7).callAll calls).toOption = some (⟨4, 9, 0⟩, d) := by
    decide +kernel
  have h : (withRates 3 7).callAll calls = .ok (⟨4, 9, 0⟩, d) := by
    rcases hr : (withRates 3 7).callAll calls with f | r
    · rw [hr] at hopt
      cases hopt
    · rw [hr] at hopt
      exact congrArg Except.ok (Option.some.inj hopt)
  exact ⟨h, totals_of_calls 3 7 (.inl rfl) h⟩

end Clock

end Chip8
