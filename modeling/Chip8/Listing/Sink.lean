import Chip8.Listing
/-!
# Listings written to a sink

A sink takes so many characters and refuses the next one. A listing is
written to it character by character; the first refusal ends the writing,
and what was taken before stays.
-/

namespace Chip8

namespace Listing

/-- A place for text that takes so many more characters. -/
structure Sink where
  /-- The characters taken so far. -/
  taken : String
  /-- How many more are taken. -/
  room : Nat
deriving DecidableEq, Repr

/-- A sink with nothing in it. -/
def Sink.ofRoom (room : Nat) : Sink := ⟨"", room⟩

/-- Characters written one by one, up to the first that is not taken: whether
all were taken, and the sink afterwards. -/
def Sink.write (s : Sink) : List Char → Bool × Sink
  | [] => (true, s)
  | c :: cs =>
    match s.room with
    | 0 => (false, s)
    | room + 1 => Sink.write ⟨s.taken.push c, room⟩ cs

/-- Lines written one by one, up to the first that is not taken whole. -/
def writeLines (s : Sink) : List Line → Bool × Sink
  | [] => (true, s)
  | l :: ls =>
    match s.write (l.text ++ "\n").toList with
    | (true, s) => writeLines s ls
    | (false, s) => (false, s)

/-- The listing of an image written to a sink: whether it was taken whole,
and the sink afterwards. -/
def write (s : Sink) (origin : UInt16) (image : List UInt8) : Bool × Sink :=
  writeLines s (lines origin.toNat image)

end Listing

end Chip8
