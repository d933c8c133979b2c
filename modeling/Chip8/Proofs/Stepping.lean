import Chip8.Proofs.Schedule
/-!
# Time agrees with ticks, however it is sliced

Spending a stretch of time is ticking once for each second of scaled time
on the clock: as long as the ticks go through (`Ticking`) the two agree on
what is reported, on the machine and on the clock, and the first tick that
fails ends both in the same place (`runFor_of_ticking`,
`runFor_of_ticking_error`). The ticks that are paid for depend on the sum of
the time alone, so a stretch may be cut in two (`runForBoth_eq`).
-/

namespace Chip8

/-- Two stretches of time in a row. -/
def Elapsed.add (a b : Elapsed) : Elapsed :=
  ⟨a.nanoseconds + b.nanoseconds⟩

/-- What several stretches did together. -/
def Tick.total : List Tick → Tick
  | [] => 0
  | t :: ts => t + total ts

theorem Tick.total_append (ts us : List Tick) : total (ts ++ us) = total ts + total us := by
  induction ts with
  | nil => exact (zero_add _).symm
  | cons t ts ih => rw [List.cons_append, total, total, ih, add_assoc]

namespace Clock

variable {c d e : Clock} {l m n : Machine} {t : Tick} {ts us : List Tick} {f : Fault} {k : Nat}

/-- **Ticks called one after the other that all go through**: the clock and
the machine before them, what they report, and the clock and the machine
after them. -/
inductive Ticking : Clock → Machine → List Tick → Clock → Machine → Prop
  /-- No tick at all. -/
  | nil (c : Clock) (m : Machine) : Ticking c m [] c m
  /-- One tick that goes through, and those after it. -/
  | cons {c d e : Clock} {l m n : Machine} {t : Tick} {ts : List Tick}
      (h : c.tick m = (.ok t, d, n)) (rest : Ticking d n ts e l) : Ticking c m (t :: ts) e l

/-- The clock with so much time left over. -/
def withTime (c : Clock) (time : Nat) : Clock :=
  { c with timeLeft := time }

/-- One tick that goes through. -/
theorem ticking_of_tick (h : (c.tick m).1 = .ok t) :
    Ticking c m [t] (c.tick m).2.1 (c.tick m).2.2 := by
  rcases htick : c.tick m with ⟨r, d, n⟩
  rw [htick] at h
  subst h
  exact .cons htick (.nil d n)

/-! ## Ticks do not read the time left over -/

theorem tick_withTime (c : Clock) (m : Machine) (time : Nat) :
    (c.withTime time).tick m =
      ((c.tick m).1, (c.tick m).2.1.withTime time, (c.tick m).2.2) := by
  rcases h : m.cycle with ⟨_ | ⟨⟩, n⟩
  · rw [tick_of_cycle_error h, tick_of_cycle_error h]
  · rw [tick_of_cycle_ok h, tick_of_cycle_ok h]
    rfl

theorem Ticking.withTime (h : Ticking c m ts d n) (time : Nat) :
    Ticking (c.withTime time) m ts (d.withTime time) n := by
  induction h with
  | nil c m => exact .nil _ m
  | cons h rest ih =>
    refine .cons ?_ ih
    rw [tick_withTime, h]

/-- **A tick that fails** leaves the clock alone and the machine with the
fault: no timer period ends with it. -/
theorem tick_eq_of_error (h : (c.tick m).1 = .error f) :
    c.tick m = (.error f, c, { m with fault := some f }) := by
  rcases hm : m.cycle with ⟨g | ⟨⟩, n⟩
  · rw [tick_of_cycle_error hm] at h ⊢
    obtain rfl : g = f := Except.error.inj h
    have hx : m.executed? .cycle = none := by simp only [Machine.executed?, hm]
    obtain ⟨f', hf'⟩ := Machine.act_cycle_of_executed?_eq_none hx
    rw [hm, Prod.mk.injEq, Except.error.injEq] at hf'
    obtain ⟨rfl, rfl⟩ := hf'
    rfl
  · rw [tick_of_cycle_ok hm] at h
    cases h

/-! ## Rows of ticks -/

theorem Ticking.append (h : Ticking c m ts d n) (g : Ticking d n us e l) :
    Ticking c m (ts ++ us) e l := by
  induction h with
  | nil => exact g
  | cons h _ ih => exact .cons h (ih g)

/-- So many ticks all go through, or one of them is the first to fail. -/
theorem exists_ticking (c : Clock) (m : Machine) (k : Nat) :
    (∃ ts d n, Ticking c m ts d n ∧ ts.length = k) ∨
      ∃ ts d n f, Ticking c m ts d n ∧ ts.length < k ∧ (d.tick n).1 = .error f := by
  induction k generalizing c m with
  | zero => exact .inl ⟨[], c, m, .nil c m, rfl⟩
  | succ k ih =>
    rcases h : c.tick m with ⟨f | t, d, n⟩
    · exact .inr ⟨[], c, m, f, .nil c m, Nat.succ_pos k, by rw [h]⟩
    · rcases ih d n with ⟨ts, e, l, hts, hk⟩ | ⟨ts, e, l, f, hts, hk, hf⟩
      · exact .inl ⟨t :: ts, e, l, .cons h hts, by rw [List.length_cons, hk]⟩
      · exact .inr ⟨t :: ts, e, l, f, .cons h hts, by rw [List.length_cons]; omega, hf⟩

/-! ## Paying for a row of ticks -/

/-- A row of ticks that all go through is paid for, each at the same cost,
and the run goes on from what the row leaves. -/
theorem ticks_of_ticking (h : Ticking c m ts d n) (time cost : Nat) (total : Tick) (k : Nat) :
    (c.withTime time).ticks m cost total (ts.length + k) =
      (d.withTime (time - ts.length * cost)).ticks n cost (total + Tick.total ts) k := by
  induction h generalizing time total with
  | nil c m =>
    rw [List.length_nil, Nat.zero_add, Nat.zero_mul, Nat.sub_zero, Tick.total, Tick.add_zero]
  | @cons c d e l m n t ts h rest ih =>
    have hfirst : ((c.withTime time).spend cost).tick m =
        (.ok t, d.withTime (time - cost), n) := by
      have htick := tick_withTime c m (time - cost)
      rw [h] at htick
      exact htick
    have hleft : time - cost - ts.length * cost = time - (ts.length + 1) * cost := by
      rw [Nat.sub_sub, Nat.add_mul, Nat.one_mul, Nat.add_comm cost]
    rw [List.length_cons, Nat.add_right_comm, ticks, hfirst]
    simp only
    rw [ih, Tick.total, Tick.add_assoc, hleft]

/-- A tick that fails ends the run; its cost is gone. -/
theorem ticks_of_tick_error (hf : (c.tick m).1 = .error f) (time cost : Nat) (total : Tick)
    (k : Nat) :
    (c.withTime time).ticks m cost total (k + 1) =
      (.error f, c.withTime (time - cost), { m with fault := some f }) := by
  have hfirst : ((c.withTime time).spend cost).tick m =
      (.error f, c.withTime (time - cost), { m with fault := some f }) := by
    have htick := tick_withTime c m (time - cost)
    rw [tick_eq_of_error hf] at htick
    exact htick
  rw [ticks, hfirst]

/-- The scaled time on a clock once a stretch of time is put to it. -/
def budget (c : Clock) (time : Elapsed) : Nat :=
  c.timeLeft + time.nanoseconds * c.cpuRate.toNat

theorem runFor_eq_ticks (c : Clock) (m : Machine) (time : Elapsed) :
    c.runFor m time =
      (c.withTime (c.budget time)).ticks m Elapsed.second 0 (c.budget time / Elapsed.second) := by
  rw [runFor, payTicks_eq]
  rfl

/-- **Time whose ticks all go through** reports them added up, and leaves the
clock and the machine that they leave; the time that pays for none stays. -/
theorem runFor_of_ticking {time : Elapsed} (h : Ticking c m ts d n)
    (hk : ts.length = c.budget time / Elapsed.second) :
    c.runFor m time =
      (.ok (Tick.total ts), d.withTime (c.budget time % Elapsed.second), n) := by
  have hrow := ticks_of_ticking h (c.budget time) Elapsed.second 0 0
  have hleft : c.budget time - ts.length * Elapsed.second = c.budget time % Elapsed.second := by
    have hdiv := Nat.div_add_mod' (c.budget time) Elapsed.second
    rw [hk]
    omega
  rw [runFor_eq_ticks, ← hk, ← Nat.add_zero ts.length, hrow, hleft, Tick.zero_add, ticks]

/-- **Time in which a tick fails** ends with that tick, at whose price the
rest of the time stays on the clock. -/
theorem runFor_of_ticking_error {time : Elapsed} (h : Ticking c m ts d n)
    (hk : ts.length < c.budget time / Elapsed.second) (hf : (d.tick n).1 = .error f) :
    c.runFor m time =
      (.error f, d.withTime (c.budget time - (ts.length + 1) * Elapsed.second),
        { n with fault := some f }) := by
  obtain ⟨k, hk'⟩ : ∃ k, c.budget time / Elapsed.second = ts.length + (k + 1) :=
    ⟨c.budget time / Elapsed.second - ts.length - 1, by omega⟩
  have hrow := ticks_of_ticking h (c.budget time) Elapsed.second 0 (k + 1)
  have hleft : c.budget time - ts.length * Elapsed.second - Elapsed.second =
      c.budget time - (ts.length + 1) * Elapsed.second := by
    rw [Nat.sub_sub, Nat.add_mul, Nat.one_mul]
  rw [runFor_eq_ticks, hk', hrow, ticks_of_tick_error hf, hleft]

/-! ## Slices of time -/

/-- Two stretches of time one after the other: what both report, added up,
or the fault of the first that fails. -/
def runForBoth (c : Clock) (m : Machine) (first second : Elapsed) :
    Except Fault Tick × Clock × Machine :=
  match c.runFor m first with
  | (.ok t, d, n) =>
    match d.runFor n second with
    | (.ok u, e, l) => (.ok (t + u), e, l)
    | (.error f, e, l) => (.error f, e, l)
  | (.error f, d, n) => (.error f, d, n)

theorem Ticking.cpuRate_eq (h : Ticking c m ts d n) : d.cpuRate = c.cpuRate := by
  induction h with
  | nil => rfl
  | @cons c d e l m n t ts h _ ih =>
    rw [ih]
    rcases hm : m.cycle with ⟨g | ⟨⟩, n'⟩
    · rw [tick_of_cycle_error hm] at h
      cases h
    · rw [tick_of_cycle_ok hm] at h
      cases h
      rfl

/-- What the first stretch leaves and the second adds pays for the rest of
the ticks of both together. -/
theorem budget_add (h : Ticking c m ts d n) (first second : Elapsed) :
    c.budget (first.add second) / Elapsed.second =
      c.budget first / Elapsed.second +
        (d.withTime (c.budget first % Elapsed.second)).budget second / Elapsed.second := by
  have hrate : (d.withTime (c.budget first % Elapsed.second)).cpuRate = c.cpuRate := h.cpuRate_eq
  have hsecond : (d.withTime (c.budget first % Elapsed.second)).budget second =
      c.budget first % Elapsed.second + second.nanoseconds * c.cpuRate.toNat := by
    rw [budget, hrate]
    rfl
  have hsum : c.budget (first.add second) =
      c.budget first + second.nanoseconds * c.cpuRate.toNat := by
    simp only [budget, Elapsed.add, Nat.add_mul, Nat.add_assoc]
  calc c.budget (first.add second) / Elapsed.second
    _ = (c.budget first % Elapsed.second + second.nanoseconds * c.cpuRate.toNat +
          c.budget first / Elapsed.second * Elapsed.second) / Elapsed.second := by
        rw [hsum, Nat.add_right_comm, Nat.mod_add_div']
    _ = c.budget first / Elapsed.second +
          (c.budget first % Elapsed.second + second.nanoseconds * c.cpuRate.toNat) /
            Elapsed.second := by
        rw [Nat.add_mul_div_right _ _ Elapsed.second_pos, Nat.add_comm]
    _ = _ := by rw [hsecond]

/-- A longer stretch pays for no fewer ticks. -/
theorem budget_div_le (c : Clock) (first second : Elapsed) :
    c.budget first / Elapsed.second ≤ c.budget (first.add second) / Elapsed.second := by
  refine Nat.div_le_div_right ?_
  simp only [budget, Elapsed.add, Nat.add_mul]
  omega

/-- **A stretch of time may be cut in two**: what is reported and the
machine are the same. -/
theorem runForBoth_eq (c : Clock) (m : Machine) (first second : Elapsed) :
    (c.runForBoth m first second).1 = (c.runFor m (first.add second)).1 ∧
      (c.runForBoth m first second).2.2 = (c.runFor m (first.add second)).2.2 := by
  -- the ticks of the first stretch, then those of the second; the two rows
  -- together are the row of the whole, up to the tick that fails
  rcases exists_ticking c m (c.budget first / Elapsed.second) with
    ⟨ts, d, n, hts, hk⟩ | ⟨ts, d, n, f, hts, hk, hf⟩
  · have hticks := budget_add hts first second
    have hfirst := runFor_of_ticking hts hk
    rcases exists_ticking d n
        ((d.withTime (c.budget first % Elapsed.second)).budget second / Elapsed.second) with
      ⟨us, e, l, hus, hk'⟩ | ⟨us, e, l, f, hus, hk', hf⟩
    · have hlength : (ts ++ us).length = c.budget (first.add second) / Elapsed.second := by
        rw [List.length_append]
        omega
      have hsecond := runFor_of_ticking (hus.withTime _) hk'
      have hboth := runFor_of_ticking (hts.append hus) hlength
      simp only [runForBoth, hfirst, hsecond, hboth, Tick.total_append, and_self]
    · have hlength : (ts ++ us).length < c.budget (first.add second) / Elapsed.second := by
        rw [List.length_append]
        omega
      have hf' : ((e.withTime (c.budget first % Elapsed.second)).tick l).1 = .error f := by
        rw [tick_withTime]
        exact hf
      have hsecond := runFor_of_ticking_error (hus.withTime _) hk' hf'
      have hboth := runFor_of_ticking_error (hts.append hus) hlength hf
      simp only [runForBoth, hfirst, hsecond, hboth, and_self]
  · have hfirst := runFor_of_ticking_error hts hk hf
    have hk' := Nat.lt_of_lt_of_le hk (budget_div_le c first second)
    have hboth := runFor_of_ticking_error hts hk' hf
    simp only [runForBoth, hfirst, hboth, and_self]

/-- **Spending time agrees with ticking**, one second of scaled time for each
tick. If as many ticks as the time pays for go through one after the other,
so does the stretch: it reports them added up, with the machine and the
clock that they leave, but for what is left of the time. If one of them is
the first to fail, the stretch fails with it and leaves the machine and the
clock that the ticks leave; no timer period ends with the failing tick, and
its price is taken from the time. So a stretch may be cut in two anywhere. -/
theorem runFor_stepwise (c : Clock) (m : Machine) :
    (∀ time ts d n, Ticking c m ts d n → ts.length = c.budget time / Elapsed.second →
      c.runFor m time =
        (.ok (Tick.total ts), { d with timeLeft := c.budget time % Elapsed.second }, n)) ∧
    (∀ time ts d n f, Ticking c m ts d n → ts.length < c.budget time / Elapsed.second →
      (d.tick n).1 = .error f →
      d.tick n = (.error f, d, { n with fault := some f }) ∧
        c.runFor m time =
          (.error f,
            { d with timeLeft := c.budget time - (ts.length + 1) * Elapsed.second },
            { n with fault := some f })) ∧
    (∀ first second,
      (c.runForBoth m first second).1 = (c.runFor m (first.add second)).1 ∧
        (c.runForBoth m first second).2.2 = (c.runFor m (first.add second)).2.2) := by
  refine ⟨fun time ts d n h hk => runFor_of_ticking h hk, fun time ts d n f h hk hf => ?_,
    runForBoth_eq c m⟩
  exact ⟨tick_eq_of_error hf, runFor_of_ticking_error h hk hf⟩

/-- A program that sets a register and then returns without a call. -/
def oneThenReturn : List UInt8 := [0x60, 0x01, 0x00, 0xEE]

/-- At three instructions and seven timer periods in a second, half a second
runs the one instruction with its two timer periods, and a whole second
ends at the return, with a second of scaled time left. -/
theorem runFor_stepwise_oneThenReturn :
    let m := (Machine.powerOn 0 Profile.standard).act (.load oneThenReturn)
    let c := withRates 3 7
    let d := (c.tick m).2.1
    let n := (c.tick m).2.2
    Ticking c m [⟨1, 2, 0⟩] d n ∧
      [(⟨1, 2, 0⟩ : Tick)].length = c.budget ⟨500000000⟩ / Elapsed.second ∧
      [(⟨1, 2, 0⟩ : Tick)].length < c.budget ⟨1000000000⟩ / Elapsed.second ∧
      (d.tick n).1 = .error (.stackUnderflow 0x202) ∧
      c.runFor m ⟨500000000⟩ =
        (.ok (Tick.total [⟨1, 2, 0⟩]), { d with timeLeft := 500000000 }, n) ∧
      c.runFor m ⟨1000000000⟩ =
        (.error (.stackUnderflow 0x202), { d with timeLeft := 1000000000 },
          { n with fault := some (.stackUnderflow 0x202) }) := by
  intro m c d n
  have hrow : Ticking c m [⟨1, 2, 0⟩] d n := ticking_of_tick (by decide +kernel)
  have hall : [(⟨1, 2, 0⟩ : Tick)].length = c.budget ⟨500000000⟩ / Elapsed.second := by decide
  have hsome : [(⟨1, 2, 0⟩ : Tick)].length < c.budget ⟨1000000000⟩ / Elapsed.second := by decide
  have hf : (d.tick n).1 = .error (.stackUnderflow 0x202) := by decide +kernel
  have hrest : c.budget ⟨500000000⟩ % Elapsed.second = 500000000 := by decide
  have hrest' : c.budget ⟨1000000000⟩ - ([(⟨1, 2, 0⟩ : Tick)].length + 1) * Elapsed.second =
      1000000000 := by decide
  have hok := (runFor_stepwise c m).1 ⟨500000000⟩ _ d n hrow hall
  obtain ⟨-, herror⟩ := (runFor_stepwise c m).2.1 ⟨1000000000⟩ _ d n _ hrow hsome hf
  rw [hrest] at hok
  rw [hrest'] at herror
  exact ⟨hrow, hall, hsome, hf, hok, herror⟩

end Clock

end Chip8
