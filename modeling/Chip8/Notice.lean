import Chip8.Elapsed
import Chip8.Fault
import Chip8.Instruction.Mnemonic
import Chip8.Tick
/-!
# Notices

What the machine and its clock report while they work: a reset, a loaded
program, every instruction before it is executed, the wait for a key and
its end, a fault, the timers after each period, and what a stretch of time
did. A notice has a level and a text.
-/

namespace Chip8

/-- How much a notice matters. -/
inductive Level
  | error
  | warn
  | info
  | debug
  | trace
deriving DecidableEq, Repr

/-- The name of a level. -/
def Level.name : Level → String
  | error => "ERROR"
  | warn => "WARN"
  | info => "INFO"
  | debug => "DEBUG"
  | trace => "TRACE"

/-- Something that is reported. -/
inductive Notice
  /-- The machine is back at power-on, with the seed of its random bytes. -/
  | reset (seed : UInt64)
  /-- A program of `size` bytes was loaded from `start` up to `stop`. -/
  | loaded (size : Nat) (start stop : UInt16)
  /-- An instruction is about to be executed. -/
  | executing (pc : UInt16) (i : Instruction)
  /-- A key that was asked for is down and goes into a register. -/
  | keyTaken (pc : UInt16) (key x : Digit)
  /-- The machine starts to wait for a key. -/
  | awaitingKey (pc : UInt16)
  /-- A fault stopped the machine. -/
  | faulted (f : Fault)
  /-- A timer period ended with these timers. -/
  | timers (delay sound : UInt8)
  /-- A stretch of time went by and did this. -/
  | elapsed (time : Elapsed) (tick : Tick)
deriving DecidableEq, Repr

namespace Notice

/-- How much a notice matters. -/
def level : Notice → Level
  | reset _ | timers _ _ => .debug
  | loaded _ _ _ => .info
  | executing _ _ | keyTaken _ _ _ | awaitingKey _ | elapsed _ _ => .trace
  | faulted _ => .error

/-- The program counter in front of a notice. -/
def atPc (pc : UInt16) (s : String) : String :=
  "[PC:" ++ Hex.literal 4 pc.toNat ++ "] " ++ s

/-- The words of a notice. -/
def message : Notice → String
  | reset seed => "reset, seed=" ++ Hex.literal 1 seed.toNat
  | loaded size start stop =>
    "loaded " ++ toString size ++ " bytes, " ++
      Hex.literal 3 start.toNat ++ ".." ++ Hex.literal 3 stop.toNat
  | executing pc i => atPc pc i.mnemonic
  | keyTaken pc key x => atPc pc ("key " ++ Hex.upper 1 key.val ++ " -> V" ++ Hex.upper 1 x.val)
  | awaitingKey pc => atPc pc "awaiting key"
  | faulted f => f.message
  | timers delay sound =>
    "cycle_timers, dt=" ++ toString delay.toNat ++ ", st=" ++ toString sound.toNat
  | elapsed time tick => "run_for " ++ time.text ++ ": " ++ tick.record

/-- The line of a notice: its level and its words. -/
def text (n : Notice) : String :=
  n.level.name ++ " " ++ n.message

end Notice

end Chip8
