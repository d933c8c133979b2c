import Chip8.Clock
import Chip8.CommandLine.Options
/-!
# Arguments

A reader of arguments. They are read from left to right. An option with a
value takes it from behind `=`, in the short form from directly behind the
letter, or from the next argument; such an argument is no option itself.
Short flags may share one dash. Behind `--` nothing is an option. An option
with a value and the name of the image may be given once. Who asks for help
or for the version gets it, whatever comes behind.
-/

namespace Chip8

/-! ## Decimal numbers

ASCII digits alone are read. Leading zeros do not matter, and an integer may
have a sign of either kind in front. -/

namespace Decimal

/-- The value of a decimal digit. -/
def digitValue? (c : Char) : Option Nat :=
  if '0' ≤ c ∧ c ≤ '9' then some (c.toNat - '0'.toNat) else none

/-- The number that decimal digits go on to, from the value of those before. -/
def naturalFrom? (n : Nat) : List Char → Option Nat
  | [] => some n
  | c :: cs => (digitValue? c).bind fun d => naturalFrom? (10 * n + d) cs

/-- The number that a text of at least one decimal digit stands for. -/
def natural? : List Char → Option Nat
  | [] => none
  | cs => naturalFrom? 0 cs

/-- The integer that a text stands for; a sign of either kind may be in
front. -/
def integer? : List Char → Option Int
  | '+' :: cs => (natural? cs).map Int.ofNat
  | '-' :: cs => (natural? cs).map fun n => -Int.ofNat n
  | cs => (natural? cs).map Int.ofNat

end Decimal

/-! ## Arguments -/

namespace CommandLine

/-- The number in a range that a text stands for. -/
def inRange? (least greatest : Nat) (cs : List Char) : Option UInt32 :=
  match Decimal.integer? cs with
  | some i => if least ≤ i ∧ i ≤ greatest then some (UInt32.ofNat i.toNat) else none
  | none => none

/-- The options that take a value. -/
inductive ValueOption
  | profile
  | rate
  | steps
  | scale
deriving DecidableEq, Repr

/-- The options that take none. -/
inductive Flag
  | fast
  | listing
  | headless
  | seed
  | help
  | version
deriving DecidableEq, Repr

/-- What can be told about the program. -/
inductive Information
  | help
  | version
deriving DecidableEq, Repr

/-- What the arguments have said so far. -/
structure Arguments where
  /-- The name of the image. -/
  rom : Option String
  /-- The name of the profile. -/
  profile : Option String
  /-- Instructions in a second. -/
  rate : Option UInt32
  /-- Instructions to run. -/
  steps : Option UInt32
  /-- Window pixels for a screen pixel. -/
  scale : Option UInt32
  /-- Run as fast as possible. -/
  fast : Bool
  /-- List the image instead of running it. -/
  listing : Bool
  /-- Run without a window. -/
  headless : Bool
  /-- The flag for a seed was given. -/
  seeded : Bool
  /-- The option whose value the next argument is to be. -/
  pending : Option ValueOption
  /-- The options have ended. -/
  ended : Bool
  /-- What is to be told about the program. -/
  information : Option Information
deriving DecidableEq, Repr

namespace Arguments

/-- Nothing said. -/
def blank : Arguments where
  rom := none
  profile := none
  rate := none
  steps := none
  scale := none
  fast := false
  listing := false
  headless := false
  seeded := false
  pending := none
  ended := false
  information := none

/-- A value that has not been given before. -/
def once {α : Type} (before given : Option α) : Option α :=
  if before.isSome then none else given

/-- The name of a profile. -/
def profileName? (name : String) : Option String :=
  (Profile.ofName? name).map fun _ => name

/-- The arguments with a value for an option, which may be given once. -/
def setValue? (a : Arguments) (value : List Char) : ValueOption → Option Arguments
  | .profile => (once a.profile (profileName? (String.ofList value))).map fun name =>
      { a with profile := some name }
  | .rate => (once a.rate (inRange? 1 (UInt32.size - 1) value)).map fun n =>
      { a with rate := some n }
  | .steps => (once a.steps (inRange? 0 (UInt32.size - 1) value)).map fun n =>
      { a with steps := some n }
  | .scale => (once a.scale (inRange? 1 63 value)).map fun n => { a with scale := some n }

/-- The arguments with a flag. Flags may be repeated, but for the seed's. -/
def setFlag? (a : Arguments) : Flag → Option Arguments
  | .fast => some { a with fast := true }
  | .listing => some { a with listing := true }
  | .headless => some { a with headless := true }
  | .seed => if a.seeded then none else some { a with seeded := true }
  | .help => some { a with information := some .help }
  | .version => some { a with information := some .version }

/-- The arguments with the name of the image, which may be given once. -/
def setRom? (a : Arguments) (name : List Char) : Option Arguments :=
  (once a.rom (some (String.ofList name))).map fun name => { a with rom := some name }

/-- An option by its long name. -/
def longOption? : String → Option (ValueOption ⊕ Flag)
  | "profile" => some (.inl .profile)
  | "hz" => some (.inl .rate)
  | "steps" => some (.inl .steps)
  | "scale" => some (.inl .scale)
  | "fast" => some (.inr .fast)
  | "disasm" => some (.inr .listing)
  | "headless" => some (.inr .headless)
  | "seed" => some (.inr .seed)
  | "help" => some (.inr .help)
  | "version" => some (.inr .version)
  | _ => none

/-- An argument of the form `--name` or `--name=value`. -/
def long? (a : Arguments) (cs : List Char) : Option Arguments :=
  let name := String.ofList (cs.takeWhile (· ≠ '='))
  match longOption? name, cs.dropWhile (· ≠ '=') with
  | some (.inl option), [] => some { a with pending := some option }
  | some (.inl option), _ :: value => a.setValue? value option
  | some (.inr flag), [] => a.setFlag? flag
  | some (.inr _), _ :: _ => none
  | none, _ => none

/-- The letters behind a single dash. -/
def short? (a : Arguments) : List Char → Option Arguments
  | [] => some a
  | 'f' :: cs => (a.setFlag? .fast).bind fun a => a.short? cs
  | 'd' :: cs => (a.setFlag? .listing).bind fun a => a.short? cs
  | 'h' :: _ => a.setFlag? .help
  | 'V' :: _ => a.setFlag? .version
  | ['p'] => some { a with pending := some .profile }
  | 'p' :: '=' :: value => a.setValue? value .profile
  | 'p' :: value => a.setValue? value .profile
  | _ => none

/-- An argument that no option waits for. -/
def plain? (a : Arguments) : List Char → Option Arguments
  | ['-', '-'] => some { a with ended := true }
  | '-' :: '-' :: cs => a.long? cs
  | '-' :: c :: cs => a.short? (c :: cs)
  | cs => a.setRom? cs

/-- Whether an argument has the form of an option. -/
def isOption : List Char → Bool
  | '-' :: _ :: _ => true
  | _ => false

/-- The arguments with one more. -/
def next? (a : Arguments) (arg : String) : Option Arguments :=
  let cs := arg.toList
  if a.information.isSome then some a
  else if a.ended then a.setRom? cs
  else
    match a.pending with
    | some option =>
      if isOption cs then none else { a with pending := none }.setValue? cs option
    | none => a.plain? cs

/-- How the program is used. -/
def usage : String :=
  "usage: [--profile NAME] [--hz N] [--steps N] [--scale N] [--seed] [--fast] " ++
    "[--disasm] [--headless] [--help] [--version] ROM\n"

/-- The end of a run that tells about the program. -/
def informationExit : Information → Exit
  | .help => ⟨0, usage, ""⟩
  | .version => ⟨0, "CHIP-8 virtual machine 0.1.0\n", ""⟩

/-- The end of a run whose arguments are misused. -/
def misuse : Exit :=
  ⟨2, "", usage⟩

/-- What the arguments have said once all are read: the image must be named,
no option may lack its value, and what was not said takes its usual value. -/
def found (a : Arguments) : Except Exit Matches :=
  match a.information, a.rom, a.pending with
  | some information, _, _ => .error (informationExit information)
  | none, some rom, none => .ok
    { rom := some rom
      profile := some (a.profile.getD "default")
      rate := some (a.rate.getD Clock.usualCpuRate)
      seed := none
      fast := some a.fast
      listing := some a.listing
      headless := some a.headless
      steps := some (a.steps.getD 1000)
      scale := some (a.scale.getD 14) }
  | none, _, _ => .error misuse

/-- What is found in the arguments of a command line. The flag for a seed has
no value. -/
def read (args : List String) : Except Exit Matches :=
  match args.foldlM next? blank with
  | some a => a.found
  | none => .error misuse

end Arguments

end CommandLine

end Chip8
