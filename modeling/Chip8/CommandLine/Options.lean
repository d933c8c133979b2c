import Chip8.Profile
/-!
# Options

What a command line asks for. The arguments are read by a reader that the
program does not bring with it. It hands over what it found, each argument
by its name, or ends the run by itself. The options are made from what was
found and from the image.
-/

namespace Chip8

namespace CommandLine

/-- What a run prints and the code it ends with. -/
structure Exit where
  /-- Zero for success. -/
  code : UInt32
  /-- What goes to standard output. -/
  output : String
  /-- What goes to standard error. -/
  errors : String
deriving DecidableEq, Repr

/-- The values of the arguments, of those that have one. -/
structure Matches where
  /-- The name of the image. -/
  rom : Option String
  /-- The name of the profile. -/
  profile : Option String
  /-- Instructions in a second. -/
  rate : Option UInt32
  /-- The seed of the random bytes. -/
  seed : Option UInt64
  /-- Run as fast as possible. -/
  fast : Option Bool
  /-- List the image instead of running it. -/
  listing : Option Bool
  /-- Run without a window. -/
  headless : Option Bool
  /-- Instructions to run. -/
  steps : Option UInt32
  /-- Window pixels for a screen pixel. -/
  scale : Option UInt32
deriving DecidableEq, Repr

/-- What a run is asked to do. -/
structure Options where
  /-- The bytes of the image. -/
  program : List UInt8
  /-- The profile. -/
  profile : Profile
  /-- Instructions in a second. -/
  rate : UInt32
  /-- The seed of the random bytes, if one is given. -/
  seed : Option UInt64
  /-- Run as fast as possible. -/
  fast : Bool
  /-- Run without a window. -/
  headless : Bool
  /-- Instructions to run. -/
  steps : UInt32
  /-- Window pixels for a screen pixel. -/
  scale : UInt32
deriving DecidableEq, Repr

/-- The options made from what was found, if none of the values is missing
that have a usual one. A flag that was not found is not set, and a profile
by another name is the standard one. -/
def Matches.options? (found : Matches) (program : List UInt8) : Option Options :=
  match found.rate, found.steps, found.scale with
  | some rate, some steps, some scale => some
    { program := program
      profile := (found.profile.bind Profile.ofName?).getD Profile.standard
      rate := rate
      seed := found.seed
      fast := found.fast.getD false
      headless := found.headless.getD false
      steps := steps
      scale := scale }
  | _, _, _ => none

variable {found : Matches}

end CommandLine

end Chip8
