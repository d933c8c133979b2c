import Chip8.Clock
import Chip8.Machine.Action
/-!
# The console

A machine with the clock that drives it, and all that a front end can ask
of the two. Every command has a reply, or fails with a fault, and leaves a
console behind. A history is a list of commands. One machine may be driven
by several clocks in turn; a clock that is taken up again goes on from
what it had left over.
-/

namespace Chip8

/-- A machine and its clock. -/
structure Console where
  /-- The machine. -/
  machine : Machine
  /-- The clock that drives it. -/
  clock : Clock
deriving DecidableEq

namespace Console

/-- What a front end can ask of a console. -/
inductive Command
  /-- An action of the machine alone. -/
  | machine (a : Machine.Action)
  /-- One instruction and the timer periods that end with it. -/
  | tick
  /-- A number of instructions. -/
  | runSteps (steps : Nat)
  /-- As many instructions as fit into a stretch of time. -/
  | runFor (time : Elapsed)
  /-- Replace the clock by a new one of two rates. -/
  | setClock (cpuRate timerRate : UInt32)
  /-- Go on with another clock, in the state in which it was left. -/
  | useClock (clock : Clock)
  /-- Forget what the clock has left over. -/
  | resetClock

/-- What a command gives back. -/
inductive Reply
  /-- The reply of the machine. -/
  | machine (r : Machine.Reply)
  /-- What the time that went by did. -/
  | ticked (t : Tick)
  /-- Nothing but that it is done. -/
  | done
deriving DecidableEq, Repr

/-- A console just switched on. -/
def powerOn (seed : UInt64) (profile : Profile) : Console :=
  ⟨Machine.powerOn seed profile, Clock.ofRate Clock.usualCpuRate⟩

/-- A reply and a console from what the clock did. -/
def ofTicks : Except Fault Tick × Clock × Machine → Except Fault Reply × Console
  | (result, clock, machine) => (result.map .ticked, ⟨machine, clock⟩)

/-- The reply to a command, or the fault it fails with, and the console
after it. -/
def perform : Console → Command → Except Fault Reply × Console
  | ⟨m, c⟩, .machine a =>
    let (result, m) := m.perform a
    (result.map .machine, ⟨m, c⟩)
  | ⟨m, c⟩, .tick => ofTicks (c.tick m)
  | ⟨m, c⟩, .runSteps steps => ofTicks (c.runSteps m steps)
  | ⟨m, c⟩, .runFor time => ofTicks (c.runFor m time)
  | ⟨m, _⟩, .setClock cpuRate timerRate => (.ok .done, ⟨m, Clock.withRates cpuRate timerRate⟩)
  | ⟨m, _⟩, .useClock clock => (.ok .done, ⟨m, clock⟩)
  | ⟨m, c⟩, .resetClock => (.ok .done, ⟨m, c.reset⟩)

/-- The console after a command. -/
def act (s : Console) (c : Command) : Console :=
  (s.perform c).2

/-- The console after a list of commands. -/
def run (s : Console) (commands : List Command) : Console :=
  commands.foldl act s

@[simp] theorem run_nil (s : Console) : s.run [] = s := rfl

@[simp] theorem run_cons (s : Console) (c : Command) (commands : List Command) :
    s.run (c :: commands) = (s.act c).run commands := rfl

/-- The replies to a list of commands, one after the other. -/
def replies (s : Console) : List Command → List (Except Fault Reply)
  | [] => []
  | c :: commands => (s.perform c).1 :: (s.act c).replies commands

/-- The notices of a command. -/
def notices (s : Console) : Command → List Notice
  | .machine a => s.machine.notices a
  | .tick => s.clock.tickNotices s.machine
  | .runSteps steps => s.clock.ticksNotices s.machine steps
  | .runFor time => s.clock.runForNotices s.machine time
  | .setClock _ _ | .useClock _ | .resetClock => []

/-- The notices of a list of commands. -/
def runNotices (s : Console) : List Command → List Notice
  | [] => []
  | c :: commands => s.notices c ++ (s.act c).runNotices commands

end Console

end Chip8
