import Chip8.Text
/-!
# Profiles

Interpreters disagree on three points of the instruction table. A profile
fixes them: what a shift reads, and whether storing or loading a block of
registers moves the index register past the block.
-/

namespace Chip8

/-- The choices on which interpreters disagree. -/
structure Profile where
  /-- A shift moves the second register into the first before shifting. -/
  shiftReadsSecond : Bool
  /-- Storing a block leaves the index register past the block. -/
  storeAdvancesIndex : Bool
  /-- Loading a block leaves the index register past the block. -/
  loadAdvancesIndex : Bool
deriving DecidableEq, Repr

namespace Profile

/-- Shifts work in place, and of the two block moves only the load moves
the index register. -/
def standard : Profile := ⟨false, false, true⟩

/-- The first interpreter, of the COSMAC VIP. -/
def vip : Profile := ⟨true, true, true⟩

/-- Shifts work in place, and no block move touches the index register. -/
def modern : Profile := ⟨false, false, false⟩

instance : Inhabited Profile := ⟨standard⟩

/-- The profile that goes by a name. -/
def ofName? : String → Option Profile
  | "default" => some standard
  | "original" => some vip
  | "modern" => some modern
  | _ => none

/-- The profile as a record of its three choices. -/
def record (p : Profile) : String :=
  Record.text "Profile"
    [("shift_uses_vy", toString p.shiftReadsSecond),
     ("store_advances_i", toString p.storeAdvancesIndex),
     ("load_advances_i", toString p.loadAdvancesIndex)]

end Profile

end Chip8
