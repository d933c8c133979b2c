import Chip8.CommandLine.Options
import Chip8.Notice
/-!
# The log

A run reports what it is asked to do and how it went, and the machine its
notices in between. Where these entries go and what they look like is up to
the log: which of them it wants, and the line that it writes for one.
-/

namespace Chip8

namespace CommandLine

/-- Something that a run reports. -/
inductive Entry
  /-- What the run is asked to do with the image of a name. -/
  | asked (name : String) (profile : Profile) (rate : UInt32) (fast : Bool) (scale : UInt32)
  /-- There is no window to run in. -/
  | windowless
  /-- The system gave no seed. -/
  | seedRefused (reason : String)
  /-- A notice of the machine. -/
  | notice (n : Notice)
  /-- The instructions ended while the machine was waiting for a key. -/
  | leftAwaiting
  /-- How long the instructions took. -/
  | took (milliseconds : Nat)
  /-- How many instructions were executed. -/
  | executed (cycles : Nat)
  /-- How many of them in a second. -/
  | speed (cycles milliseconds : Nat)
deriving DecidableEq, Repr

/-- A quotient as a whole number: the nearest one, and of two that are as
near the even one. -/
def rounded (n d : Nat) : Nat :=
  let rest := 2 * (n % d)
  if rest < d ∨ rest = d ∧ n / d % 2 = 0 then n / d else n / d + 1

namespace Entry

/-- How much an entry matters. -/
def level : Entry → Level
  | asked _ _ _ _ _ | took _ | executed _ | speed _ _ => .info
  | windowless | leftAwaiting => .warn
  | seedRefused _ => .debug
  | notice n => n.level

/-- The words of an entry. -/
def message : Entry → String
  | asked name profile rate fast scale =>
    "rom=" ++ name ++ " profile=" ++ profile.record ++ " hz=" ++ toString rate.toNat ++
      " fast=" ++ toString fast ++ " scale=" ++ toString scale.toNat
  | windowless => "built without the `sdl` feature, running headless"
  | seedRefused reason => "getrandom failed (" ++ reason ++ "), using fixed seed"
  | notice n => n.message
  | leftAwaiting => "stopped while waiting for a key press"
  | took milliseconds => "Execution time: " ++ toString milliseconds ++ " ms"
  | executed cycles => "Cycles: " ++ toString cycles
  | speed cycles milliseconds =>
    "Cycles per second: " ++ toString (rounded (1000 * cycles) milliseconds)

end Entry

/-- Where entries go. -/
structure Log where
  /-- Whether an entry is written at all. -/
  wants : Entry → Bool
  /-- What is written for an entry, which tells the time as well: by how many
  were written before it. -/
  line : Nat → Entry → String

namespace Log

/-- What is written for a row of entries. -/
def text (log : Log) (entries : List Entry) : String :=
  String.join (entries.mapIdx log.line)

/-- A log of errors whose lines begin with the level. -/
def errors : Log where
  wants e := e.level = .error
  line _ e := "[" ++ e.level.name ++ "] " ++ e.message ++ "\n"

/-- The log that is switched off. -/
def off : Log where
  wants _ := false
  line _ _ := ""

end Log

end CommandLine

end Chip8
