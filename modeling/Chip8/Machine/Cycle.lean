import Chip8.Machine.Execute
/-!
# Cycles and timer periods

A cycle fetches, decodes and executes one instruction. A fault leaves the
machine as it was and stays with it: from then on every cycle fails with
that fault and changes nothing, until a reset. A timer period counts both
timers down by one, faulted or not.
-/

namespace Chip8

namespace Machine

/-- The machine after the instruction at the program counter, or the fault
that this instruction runs into. -/
def step (m : Machine) : Except Fault Machine :=
  match Instruction.decode? m.fetch with
  | none => .error (.decode m.pc m.fetch)
  | some i => m.execute i

/-- One cycle: whether it went through, and the machine after it. -/
def cycle (m : Machine) : Except Fault Unit × Machine :=
  match m.fault with
  | some f => (.error f, m)
  | none =>
    match m.step with
    | .ok m => (.ok (), m)
    | .error f => (.error f, { m with fault := some f })

/-- One timer period: whether the sound timer was running, and the machine
with both timers counted down. -/
def timerPeriod (m : Machine) : Bool × Machine :=
  (m.isSounding,
    { m with registers := { m.registers with
        delay := if 0 < m.registers.delay then m.registers.delay - 1 else 0
        sound := if 0 < m.registers.sound then m.registers.sound - 1 else 0 } })

/-- Several timer periods: how many began with the sound timer running, on
top of a count so far, and the machine after them. -/
def timerPeriods (m : Machine) (periods : Nat) (tones : Nat) : Nat × Machine :=
  match periods with
  | 0 => (tones, m)
  | k + 1 =>
    let (tone, m) := m.timerPeriod
    m.timerPeriods k (tones + tone.toNat)

/-! ## The three ways a cycle goes -/

/-- After a fault a cycle fails with it and changes nothing. -/
theorem cycle_of_fault {m : Machine} {f : Fault} (h : m.fault = some f) :
    m.cycle = (.error f, m) := by
  simp only [cycle, h]

/-- A step that goes through is the cycle. -/
theorem cycle_of_step_ok {m n : Machine} (h : m.fault = none) (hs : m.step = .ok n) :
    m.cycle = (.ok (), n) := by
  simp only [cycle, h, hs]

/-- A step that runs into a fault leaves the machine with that fault and
nothing else changed. -/
theorem cycle_of_step_error {m : Machine} {f : Fault} (h : m.fault = none)
    (hs : m.step = .error f) : m.cycle = (.error f, { m with fault := some f }) := by
  simp only [cycle, h, hs]

/-! ## What is reported -/

/-- The notices of an instruction. -/
def executionNotices (m : Machine) (i : Instruction) : List Notice :=
  .executing m.pc i ::
    match i with
    | .awaitKey x =>
      match m.keypad.first? with
      | some key => [.keyTaken m.pc key x]
      | none => if m.awaitingKey then [] else [.awaitingKey m.pc]
    | _ => []

/-- The notices of a cycle; a fault that is only repeated is not reported
again. -/
def cycleNotices (m : Machine) : List Notice :=
  match m.fault with
  | some _ => []
  | none =>
    (Instruction.decode? m.fetch).elim [] m.executionNotices ++
      match m.step with
      | .ok _ => []
      | .error f => [.faulted f]

/-- The notices of several timer periods. -/
def timerNotices (m : Machine) : Nat → List Notice
  | 0 => []
  | k + 1 =>
    let after := m.timerPeriod.2
    .timers after.registers.delay after.registers.sound :: after.timerNotices k

end Machine

end Chip8
