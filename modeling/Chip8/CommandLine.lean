import Chip8.Clock
import Chip8.CommandLine.Log
import Chip8.Display.Text
import Chip8.FileSystem
import Chip8.Listing
import Chip8.Machine.Action
/-!
# The command line

A run executes a number of instructions of a program image without a
window, then prints the screen and the registers; on request the image is
listed instead. What a run finds around it is given: the reader of its
arguments, the files, the seed that the system draws, the time that goes by
and the log. What it prints, what it reports and the code it ends with are
computed from these.
-/

namespace Chip8

/-- The notices of several ticks that are wanted, in front of those of ticks
before, the last of them first. -/
def Clock.wantedNotices (wants : Notice → Bool) (sofar : List Notice) (c : Clock) (m : Machine) :
    Nat → List Notice
  | 0 => sofar
  | n + 1 =>
    let sofar := ((c.tickNotices m).filter wants).reverse ++ sofar
    match c.tick m with
    | (.ok _, c, m) => c.wantedNotices wants sofar m n
    | (.error _, _, _) => sofar

namespace CommandLine

/-- What a run finds around it. -/
structure Host where
  /-- What the reader of the arguments finds in them, or how it ends the run
  itself: it tells about the program, or complains. -/
  parse : List String → Except Exit Matches
  /-- The bytes of the file that goes by a name. -/
  contents : String → Except FileError (List UInt8)
  /-- The seed that the system draws. -/
  seed : UInt64
  /-- Why the system drew none, if it did not; the seed is what it left. -/
  seedRefusal : Option String
  /-- How many milliseconds the instructions take. -/
  milliseconds : Nat
  /-- Where entries go. -/
  log : Log

/-- How a run comes to its end. -/
inductive Ending
  /-- The image is listed. -/
  | listed
  /-- So many instructions were executed. -/
  | ran (cycles : Nat)
  /-- Something failed. -/
  | failed (reason : String)
deriving DecidableEq, Repr

/-- What comes of a run, but for the time it takes. -/
structure Outcome where
  /-- What goes to standard output. -/
  output : String
  /-- What is reported and wanted. -/
  entries : List Entry
  /-- How the run ends. -/
  ending : Ending
deriving DecidableEq, Repr

/-- The screen and the registers. -/
def report (m : Machine) : String :=
  m.display.text ++ m.dump ++ "\n"

namespace Host

/-- The seed of the random bytes: the one that is given, or else the one that
the system draws. -/
def seedOf (host : Host) (o : Options) : UInt64 :=
  o.seed.getD host.seed

/-- The machine of a run, switched on. -/
def blank (host : Host) (o : Options) : Machine :=
  Machine.powerOn (host.seedOf o) o.profile

/-- What is reported before the first instruction. -/
def opening (host : Host) (name : String) (o : Options) : List Entry :=
  [.asked name o.profile o.rate o.fast o.scale] ++
    (if o.headless then [] else [.windowless]) ++
    (if o.seed.isSome then [] else host.seedRefusal.toList.map .seedRefused) ++
    (.reset (host.seedOf o) :: (host.blank o).notices (.load o.program)).map .notice

/-- What is reported while the instructions are executed, and afterwards if
the machine is left waiting for a key; no more of it than is wanted. -/
def ticksEntries (host : Host) (o : Options) (m after : Machine) : List Entry :=
  let notices := (Clock.ofRate o.rate).wantedNotices (fun n => host.log.wants (.notice n)) [] m
    o.steps.toNat
  notices.reverse.map .notice ++
    (if after.awaitingKey then [Entry.leftAwaiting] else []).filter host.log.wants

/-- A number of instructions of a program, then the report; a fault ends
them early. -/
def runHeadless (host : Host) (name : String) (o : Options) : Outcome :=
  let opening := (host.opening name o).filter host.log.wants
  match (host.blank o).loadProgram o.program with
  | .error f => ⟨"", opening, .failed f.record⟩
  | .ok (_, m) =>
    match (Clock.ofRate o.rate).runSteps m o.steps.toNat with
    | (.ok t, _, after) =>
      ⟨report after, opening ++ host.ticksEntries o m after, .ran t.cycles⟩
    | (.error f, _, after) =>
      ⟨report after, opening ++ host.ticksEntries o m after, .failed f.record⟩

/-- What comes of the arguments that were found. There is no outcome where
one of them has no value that the program counts on. -/
def outcome? (host : Host) (found : Matches) : Option Outcome :=
  match found.rom with
  | none => none
  | some name =>
    match host.contents name with
    | .error e => some ⟨"", [], .failed e.record⟩
    | .ok program =>
      if found.listing.getD false then
        some ⟨Listing.text Registers.programStart program, [], .listed⟩
      else (found.options? program).map (host.runHeadless name)

/-- What is reported when the instructions have been executed; some time
goes by in any case. -/
def closing (host : Host) : Ending → List Entry
  | .ran cycles =>
    let milliseconds := max host.milliseconds 1
    [.took milliseconds, .executed cycles, .speed cycles milliseconds]
  | .listed | .failed _ => []

/-- What a run prints and the code it ends with. The log is written to
standard error, and so is what failed. -/
def exit (host : Host) (t : Outcome) : Exit :=
  let log := host.log.text (t.entries ++ (host.closing t.ending).filter host.log.wants)
  match t.ending with
  | .listed | .ran _ => ⟨0, t.output, log⟩
  | .failed reason => ⟨1, t.output, log ++ "Error: " ++ reason ++ "\n"⟩

/-- A command line. The arguments are judged before a file is looked for. -/
def exitOf? (host : Host) (args : List String) : Option Exit :=
  match host.parse args with
  | .error e => some e
  | .ok found => (host.outcome? found).map host.exit

end Host

end CommandLine

end Chip8
