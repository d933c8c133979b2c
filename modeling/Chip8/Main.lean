import Chip8.CommandLine
import Chip8.CommandLine.Arguments
/-!
# The program

Reads the image that the command line names, draws a seed, and prints what
the run prints.
-/

namespace Chip8

namespace CommandLine

/-- The number and the sentence of an error of the system. -/
def systemError : IO.Error → UInt32 × String
  | .alreadyExists _ code details | .otherError code details | .resourceBusy code details
  | .resourceVanished code details | .unsupportedOperation code details
  | .hardwareFault code details | .unsatisfiedConstraints code details
  | .illegalOperation code details | .protocolError code details | .timeExpired code details
  | .interrupted _ code details | .noFileOrDirectory _ code details
  | .invalidArgument _ code details | .permissionDenied _ code details
  | .resourceExhausted _ code details | .inappropriateType _ code details
  | .noSuchThing _ code details => (code, details)
  | e => (0, e.toString)

/-- The number of an error, which some calls of the system give negated. -/
def errorNumber (code : UInt32) : Nat :=
  if code < 0x80000000 then code.toNat else (0 - code).toNat

/-- The bytes of a file, or why there are none. -/
def readImage (name : String) : IO (Except FileError (List UInt8)) := do
  match ← (IO.FS.readBinFile name).toBaseIO with
  | .ok bytes => return .ok bytes.toList
  | .error e =>
    let (code, details) := systemError e
    return .error (FileError.ofCode (errorNumber code) details)

/-- Eight random bytes as a seed. -/
def drawSeed : IO UInt64 := do
  let bytes ← IO.getRandomBytes 8
  return bytes.toList.foldl (fun seed b => seed <<< 8 ||| b.toUInt64) 0

/-- Runs a command line on the files of the system. The one image that it can
ask for is read beforehand. Nothing that depends on the time is an error, so
no time is taken. -/
def runArgs (args : List String) : IO (Option Exit) := do
  let parsed := Arguments.read args
  let image ← match parsed with
    | .ok found => readImage (found.rom.getD "")
    | .error _ => pure (.error .notFound)
  let seed ← drawSeed
  let host : Host :=
    { parse := Arguments.read
      contents := fun _ => image
      seed := seed
      seedRefusal := none
      milliseconds := 0
      log := Log.errors }
  return host.exitOf? args

end CommandLine

end Chip8

/-- Runs the command line. -/
def main (args : List String) : IO UInt32 := do
  match ← Chip8.CommandLine.runArgs args with
  | none => return 101
  | some exit =>
    IO.print exit.output
    IO.eprint exit.errors
    return exit.code
