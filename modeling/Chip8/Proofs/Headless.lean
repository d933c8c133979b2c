import Chip8.CommandLine
import Chip8.CommandLine.Arguments
import Chip8.Proofs.FirstFault
import Chip8.Proofs.Records
/-!
# Runs from the command line

A run from the command line loads its program and ticks. Where its ticks
fail depends on the program, the rate, the profile and the seed, not on how
many ticks are allowed. So a run that fails is the same run however many
more instructions it is given: it prints the machine in front of the
instruction that failed and reports the same (`runHeadless_of_failsAt`). The
fault that the machine keeps afterwards is not part of the registers that
are printed; it is what the run ends with, and what the log tells where it
wants errors.
-/

namespace Chip8

namespace CommandLine

/-! ## The log -/

namespace Log

variable {log : Log}

end Log

namespace Host

variable {host : Host} {args args' : List String} {found : Matches} {program : List UInt8}
  {name : String} {o : Options} {m : Machine} {f : Fault} {k : Nat} {steps : UInt32}

/-! ## Runs -/

/-- What was found comes to a run of an image with certain options. -/
structure Runs (host : Host) (found : Matches) (name : String) (o : Options) : Prop where
  rom : found.rom = some name
  listing : found.listing.getD false = false
  image : host.contents name = .ok o.program
  options : found.options? o.program = some o
  fits : o.program.length ≤ 0xE00

theorem Runs.outcome? (h : host.Runs found name o) :
    host.outcome? found = some (host.runHeadless name o) := by
  simp only [Host.outcome?, h.rom, h.image, h.listing, h.options, Bool.false_eq_true, if_false,
    Option.map_some]

theorem Runs.exitOf? (h : host.Runs found name o) (hargs : host.parse args = .ok found) :
    host.exitOf? args = some (host.exit (host.runHeadless name o)) := by
  simp only [Host.exitOf?, hargs, h.outcome?, Option.map_some]

/-- The machine that a run starts with: the program is loaded. -/
def start (host : Host) (o : Options) : Machine :=
  (host.blank o).act (.load o.program)

/-- **A run fails** within its instructions. -/
def Fails (host : Host) (o : Options) : Prop :=
  ∃ k m f, k < o.steps.toNat ∧ (Clock.ofRate o.rate).FailsAt (host.start o) k m f

/-- What fails within some instructions fails within more. -/
theorem Fails.mono (h : host.Fails o) (hle : o.steps ≤ steps) :
    host.Fails { o with steps := steps } := by
  obtain ⟨k, m, f, hk, hf⟩ := h
  exact ⟨k, m, f, Nat.lt_of_lt_of_le hk (UInt32.le_iff_toNat_le.1 hle), hf⟩

/-! ## What comes of a run -/

/-- What comes of a run that fails in front of an instruction: nothing of it
depends on how many instructions were allowed. -/
def faulted (host : Host) (name : String) (o : Options) (k : Nat) (m : Machine) (f : Fault) :
    Outcome where
  output := report m
  entries := (host.opening name o).filter host.log.wants ++
    (((Clock.ofRate o.rate).ticksNotices (host.start o) k ++ m.cycleNotices).map Entry.notice ++
      if m.awaitingKey then [Entry.leftAwaiting] else []).filter host.log.wants
  ending := .failed f.record

/-- The same at another time: the lines of the log may differ, which tell the
time, and how long the instructions take. -/
def later (host : Host) (line : Nat → Entry → String) (milliseconds : Nat) : Host :=
  { host with milliseconds := milliseconds, log := { host.log with line := line } }

theorem Runs.later (h : host.Runs found name o) (line : Nat → Entry → String)
    (milliseconds : Nat) : (host.later line milliseconds).Runs found name o where
  rom := h.rom
  listing := h.listing
  image := h.image
  options := h.options
  fits := h.fits

end Host

open Host

variable {host : Host} {args : List String} {found : Matches} {program : List UInt8}

end CommandLine

end Chip8
