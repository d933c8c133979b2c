import Chip8.Clock
import Chip8.Guarded
/-!
# The clock in words of a fixed width

The time left over is kept in a word of 128 bits and the instructions left
over in one of 64, and so is every sum on the way to them. The guarded
clock computes what the clock computes and has no result once a sum leaves
its word.
-/

namespace Chip8

namespace Clock

open Guarded

/-- The clock with an instruction put to those left over. -/
def addCycle? (c : Clock) : Option Clock := do
  let cyclesLeft ← fit? UInt64.size (c.cyclesLeft + c.timerRate.toNat)
  some { c with cyclesLeft := cyclesLeft }

/-- One instruction, then every timer period that ends with it. -/
def tick? (c : Clock) (m : Machine) : Option (Except Fault Tick × Clock × Machine) :=
  match m.cycle with
  | (.error f, m) => some (.error f, c, m)
  | (.ok (), m) => do
    let c ← c.addCycle?
    let (periods, tones, c, m) := c.payPeriods m 0 0
    some (.ok ⟨1, periods, tones⟩, c, m)

/-- A number of instructions, up to the first fault, on top of a total so
far. -/
def steps? (c : Clock) (m : Machine) (total : Tick) :
    Nat → Option (Except Fault Tick × Clock × Machine)
  | 0 => some (.ok total, c, m)
  | k + 1 =>
    match c.tick? m with
    | some (.ok t, c, m) => c.steps? m (total + t) k
    | some (.error f, c, m) => some (.error f, c, m)
    | none => none

/-- The clock with a stretch of time to spend, which is scaled by the rate
and then put to the time left over. -/
def gain? (c : Clock) (time : Elapsed) : Option Clock := do
  let scaled ← fit? wideSize (time.nanoseconds * c.cpuRate.toNat)
  let timeLeft ← fit? wideSize (c.timeLeft + scaled)
  some { c with timeLeft := timeLeft }

theorem addCycle?_eq_some_iff {c d : Clock} :
    c.addCycle? = some d ↔
      c.cyclesLeft + c.timerRate.toNat < UInt64.size ∧ d = c.addCycle := by
  unfold addCycle? fit?
  by_cases h : c.cyclesLeft + c.timerRate.toNat < UInt64.size
  · simp only [h, true_and]
    exact ⟨fun e => (Option.some.inj e).symm, fun e => congrArg some e.symm⟩
  · simp only [h, false_and, iff_false]
    intro e
    cases e

/-- A guarded tick that has a result is the tick. -/
theorem eq_tick_of_tick? {c : Clock} {m : Machine} {r : Except Fault Tick × Clock × Machine}
    (h : c.tick? m = some r) : r = c.tick m := by
  unfold tick? at h
  unfold tick
  rcases hm : m.cycle with ⟨f | ⟨⟩, n⟩
  · rw [hm] at h
    exact (Option.some.inj h).symm
  · rw [hm] at h
    rcases hd : c.addCycle? with _ | d
    · rw [hd] at h
      cases h
    · obtain ⟨-, rfl⟩ := addCycle?_eq_some_iff.1 hd
      rw [hd] at h
      exact (Option.some.inj h).symm

/-- Ticks for as long as the time left over pays for one, up to the first
fault, on top of a total so far. -/
def payTicks? (c : Clock) (m : Machine) (total : Tick) :
    Option (Except Fault Tick × Clock × Machine) :=
  if Elapsed.second ≤ c.timeLeft then
    match _ : (c.spend Elapsed.second).tick? m with
    | some (.ok t, d, n) => d.payTicks? n (total + t)
    | some (.error f, d, n) => some (.error f, d, n)
    | none => none
  else some (.ok total, c, m)
termination_by c.timeLeft
decreasing_by
  have := Elapsed.second_pos
  have htick := eq_tick_of_tick? ‹(c.spend Elapsed.second).tick? m = some (.ok t, d, n)›
  have hleft := timeLeft_tick htick.symm
  rw [timeLeft_spend] at hleft
  omega

/-- The time that is left pays for a tick, and the rest for those after
it. -/
theorem payTicks?_of_tick? {c : Clock} {m : Machine} {r : Except Fault Tick × Clock × Machine}
    (hle : Elapsed.second ≤ c.timeLeft) (h : (c.spend Elapsed.second).tick? m = some r)
    (total : Tick) :
    c.payTicks? m total =
      match r with
      | (.ok t, d, n) => d.payTicks? n (total + t)
      | (.error f, d, n) => some (.error f, d, n) := by
  rw [payTicks?, if_pos hle]
  split <;> rename_i htick <;> rw [htick] at h <;> cases h <;> rfl

/-- As many instructions as fit into a stretch of time and what was left
over before it. -/
def runFor? (c : Clock) (m : Machine) (time : Elapsed) :
    Option (Except Fault Tick × Clock × Machine) := do
  (← c.gain? time).payTicks? m 0

end Clock

end Chip8
