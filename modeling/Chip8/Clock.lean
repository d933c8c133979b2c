import Chip8.Machine.Cycle
/-!
# The clock

The clock drives a machine at an instruction rate while the timers count
down at a rate of their own. It knows no wall time: it is given steps to
run or time that went by. What does not make up a whole instruction or a
whole timer period is kept as an exact remainder, so neither rate drifts.

Both remainders are scaled to stay whole numbers: time left over is kept
in nanoseconds times the instruction rate, of which an instruction costs
`Elapsed.second`; instructions left over are kept times the timer rate, of
which a timer period costs the instruction rate. Both are paid for one at
a time (`payPeriods`, `payTicks`), and come to what a division gives at
once (`payPeriods_eq`, `payTicks_eq`).
-/

namespace Chip8

/-- The two rates and what is left over of each. -/
structure Clock where
  /-- Instructions in a second. -/
  cpuRate : UInt32
  /-- Timer periods in a second. -/
  timerRate : UInt32
  /-- Nanoseconds times `cpuRate`, not yet spent on an instruction. -/
  timeLeft : Nat
  /-- Instructions times `timerRate`, not yet spent on a timer period. -/
  cyclesLeft : Nat
  cpuRate_pos : 0 < cpuRate.toNat
  timerRate_pos : 0 < timerRate.toNat
deriving DecidableEq

namespace Clock

/-- The usual number of timer periods in a second. -/
def usualTimerRate : UInt32 := 60

/-- The usual number of instructions in a second. -/
def usualCpuRate : UInt32 := 500

/-- A rate, or one if the rate is zero. -/
def atLeastOne (rate : UInt32) : UInt32 :=
  if rate = 0 then 1 else rate

theorem toNat_atLeastOne_pos (rate : UInt32) : 0 < (atLeastOne rate).toNat := by
  unfold atLeastOne
  split
  · decide
  · next h =>
    have : rate.toNat ≠ 0 := fun e => h (UInt32.toNat_inj.1 e)
    omega

/-- A clock of two rates with nothing left over; a rate of zero counts as
one. -/
def withRates (cpuRate timerRate : UInt32) : Clock where
  cpuRate := atLeastOne cpuRate
  timerRate := atLeastOne timerRate
  timeLeft := 0
  cyclesLeft := 0
  cpuRate_pos := toNat_atLeastOne_pos cpuRate
  timerRate_pos := toNat_atLeastOne_pos timerRate

/-- A clock of an instruction rate, with the usual timer rate. -/
def ofRate (cpuRate : UInt32) : Clock :=
  withRates cpuRate usualTimerRate

/-- The clock with nothing left over. -/
def reset (c : Clock) : Clock :=
  { c with timeLeft := 0, cyclesLeft := 0 }

/-- The whole nanoseconds of one period of a rate. -/
def periodOf (rate : UInt32) : Nat :=
  Elapsed.second / rate.toNat

/-! ## One instruction -/

/-- The clock with an instruction put to those left over. -/
def addCycle (c : Clock) : Clock :=
  { c with cyclesLeft := c.cyclesLeft + c.timerRate.toNat }

/-- The clock with a timer period taken from the instructions left over. -/
def takePeriod (c : Clock) : Clock :=
  { c with cyclesLeft := c.cyclesLeft - c.cpuRate.toNat }

/-- Timer periods for as long as the instructions left over make up one:
how many, and how many of them began with the sound timer running, on top
of counts so far, and the clock and the machine after them. -/
def payPeriods (c : Clock) (m : Machine) (periods tones : Nat) : Nat × Nat × Clock × Machine :=
  if c.cpuRate.toNat ≤ c.cyclesLeft then
    let (tone, m) := m.timerPeriod
    c.takePeriod.payPeriods m (periods + 1) (tones + tone.toNat)
  else (periods, tones, c, m)
termination_by c.cyclesLeft
decreasing_by
  have := c.cpuRate_pos
  simp only [takePeriod]
  omega

/-- One instruction, then every timer period that ends with it. An
instruction that faults takes no time. -/
def tick (c : Clock) (m : Machine) : Except Fault Tick × Clock × Machine :=
  match m.cycle with
  | (.error f, m) => (.error f, c, m)
  | (.ok (), m) =>
    let (periods, tones, c, m) := c.addCycle.payPeriods m 0 0
    (.ok ⟨1, periods, tones⟩, c, m)

/-- The timer periods that end with the next instruction. -/
def periodsDue (c : Clock) : Nat :=
  (c.cyclesLeft + c.timerRate.toNat) / c.cpuRate.toNat

/-- The clock after an instruction and the timer periods due with it. -/
def afterCycle (c : Clock) : Clock :=
  { c with cyclesLeft := (c.cyclesLeft + c.timerRate.toNat) % c.cpuRate.toNat }

/-- The periods paid for one at a time are the quotient, and what stays left
over is the remainder. -/
theorem payPeriods_eq (c : Clock) (m : Machine) (periods tones : Nat) :
    c.payPeriods m periods tones =
      (periods + c.cyclesLeft / c.cpuRate.toNat,
        (m.timerPeriods (c.cyclesLeft / c.cpuRate.toNat) tones).1,
        { c with cyclesLeft := c.cyclesLeft % c.cpuRate.toNat },
        (m.timerPeriods (c.cyclesLeft / c.cpuRate.toNat) tones).2) := by
  fun_induction payPeriods with
  | case1 c m periods tones h tone m' hp ih =>
    have hdiv : c.cyclesLeft / c.cpuRate.toNat =
        (c.cyclesLeft - c.cpuRate.toNat) / c.cpuRate.toNat + 1 :=
      Nat.div_eq_sub_div c.cpuRate_pos h
    have hmod : c.cyclesLeft % c.cpuRate.toNat =
        (c.cyclesLeft - c.cpuRate.toNat) % c.cpuRate.toNat :=
      Nat.mod_eq_sub_mod h
    rw [ih, hdiv, hmod]
    simp only [takePeriod, Machine.timerPeriods, hp]
    rw [Nat.add_assoc, Nat.add_comm 1]
  | case2 c m periods tones h =>
    have hlt : c.cyclesLeft < c.cpuRate.toNat := by omega
    rw [Nat.div_eq_of_lt hlt, Nat.mod_eq_of_lt hlt]
    rfl

/-- A tick of a machine that faults changes nothing but the machine. -/
theorem tick_of_cycle_error {c : Clock} {m n : Machine} {f : Fault}
    (h : m.cycle = (.error f, n)) : c.tick m = (.error f, c, n) := by
  simp only [tick, h]

/-- A tick of a machine whose cycle goes through. -/
theorem tick_of_cycle_ok {c : Clock} {m n : Machine} (h : m.cycle = (.ok (), n)) :
    c.tick m = (.ok ⟨1, c.periodsDue, (n.timerPeriods c.periodsDue 0).1⟩, c.afterCycle,
      (n.timerPeriods c.periodsDue 0).2) := by
  simp only [tick, h, payPeriods_eq, Nat.zero_add]
  rfl

/-- A tick takes no time by itself. -/
theorem timeLeft_tick {c d : Clock} {m n : Machine} {r : Except Fault Tick}
    (h : c.tick m = (r, d, n)) : d.timeLeft = c.timeLeft := by
  rcases hm : m.cycle with ⟨_ | ⟨⟩, m'⟩
  · rw [tick_of_cycle_error hm] at h
    obtain ⟨-, rfl, -⟩ := h
    rfl
  · rw [tick_of_cycle_ok hm] at h
    obtain ⟨-, rfl, -⟩ := h
    rfl

/-! ## Stretches of instructions -/

/-- The clock with a cost taken from the time left over. -/
def spend (c : Clock) (cost : Nat) : Clock :=
  { c with timeLeft := c.timeLeft - cost }

@[simp] theorem timeLeft_spend (c : Clock) (cost : Nat) :
    (c.spend cost).timeLeft = c.timeLeft - cost := rfl

/-- Several ticks, up to the first fault, on top of a total so far. Every
tick that is tried costs the same part of the time left over. -/
def ticks (c : Clock) (m : Machine) (cost : Nat) (total : Tick) :
    Nat → Except Fault Tick × Clock × Machine
  | 0 => (.ok total, c, m)
  | n + 1 =>
    match (c.spend cost).tick m with
    | (.ok t, c, m) => c.ticks m cost (total + t) n
    | (.error f, c, m) => (.error f, c, m)

/-- A number of instructions, whatever the time. -/
def runSteps (c : Clock) (m : Machine) (steps : Nat) : Except Fault Tick × Clock × Machine :=
  c.ticks m 0 0 steps

/-- The clock with a stretch of time to spend. -/
def gain (c : Clock) (time : Elapsed) : Clock :=
  { c with timeLeft := c.timeLeft + time.nanoseconds * c.cpuRate.toNat }

/-- The instructions that the time left over pays for. -/
def affordable (c : Clock) : Nat :=
  c.timeLeft / Elapsed.second

/-- Ticks for as long as the time left over pays for one, up to the first
fault, on top of a total so far. -/
def payTicks (c : Clock) (m : Machine) (total : Tick) : Except Fault Tick × Clock × Machine :=
  if Elapsed.second ≤ c.timeLeft then
    match _ : (c.spend Elapsed.second).tick m with
    | (.ok t, d, n) => d.payTicks n (total + t)
    | (.error f, d, n) => (.error f, d, n)
  else (.ok total, c, m)
termination_by c.timeLeft
decreasing_by
  have := Elapsed.second_pos
  have hleft := timeLeft_tick ‹(c.spend Elapsed.second).tick m = (.ok t, d, n)›
  rw [timeLeft_spend] at hleft
  omega

/-- As many instructions as fit into a stretch of time and what was left
over before it. -/
def runFor (c : Clock) (m : Machine) (time : Elapsed) : Except Fault Tick × Clock × Machine :=
  (c.gain time).payTicks m 0

/-- A second of scaled time pays for one tick more than is paid for after
that tick. -/
theorem affordable_eq_succ {c d : Clock} {m n : Machine} {r : Except Fault Tick}
    (hle : Elapsed.second ≤ c.timeLeft) (h : (c.spend Elapsed.second).tick m = (r, d, n)) :
    c.affordable = d.affordable + 1 := by
  rw [affordable, affordable, timeLeft_tick h, timeLeft_spend]
  exact Nat.div_eq_sub_div Elapsed.second_pos hle

/-- The ticks paid for one at a time are those that the time left over pays
for at once. -/
theorem payTicks_eq (c : Clock) (m : Machine) (total : Tick) :
    c.payTicks m total = c.ticks m Elapsed.second total c.affordable := by
  fun_induction payTicks with
  | case1 c m total hle t d n h ih =>
    rw [ih, affordable_eq_succ hle h, ticks, h]
  | case2 c m total hle f d n h =>
    rw [affordable_eq_succ hle h, ticks, h]
  | case3 c m total hlt =>
    have hnone : c.affordable = 0 := Nat.div_eq_of_lt (by omega)
    rw [hnone, ticks]

/-! ## What is reported -/

/-- The notices of a tick. -/
def tickNotices (c : Clock) (m : Machine) : List Notice :=
  m.cycleNotices ++
    match m.cycle with
    | (.ok (), m) => m.timerNotices c.periodsDue
    | (.error _, _) => []

/-- The notices of several ticks. -/
def ticksNotices (c : Clock) (m : Machine) : Nat → List Notice
  | 0 => []
  | n + 1 =>
    c.tickNotices m ++
      match c.tick m with
      | (.ok _, c, m) => c.ticksNotices m n
      | (.error _, _, _) => []

/-- The notices of a stretch of time; it is reported itself unless a fault
ended it. -/
def runForNotices (c : Clock) (m : Machine) (time : Elapsed) : List Notice :=
  c.ticksNotices m (c.gain time).affordable ++
    match (c.runFor m time).1 with
    | .ok tick => [.elapsed time tick]
    | .error _ => []

end Clock

end Chip8
