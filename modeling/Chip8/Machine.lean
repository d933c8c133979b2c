import Chip8.CallStack
import Chip8.Display.Sprite
import Chip8.Font
import Chip8.Keypad
import Chip8.Memory
import Chip8.Notice
import Chip8.Profile
import Chip8.Random
import Chip8.Registers
/-!
# The machine

Memory, registers, call stack, keypad and display in one state, with the
flags that a front end watches. A machine begins as power-on leaves it:
all blank, but for the font in low memory and the random bytes of its
seed. A reset goes back there part by part; nothing that happened before
survives it, the loaded program included (`reset_eq_powerOn`).
-/

namespace Chip8

/-- The state of the whole machine. -/
structure Machine where
  /-- The bytes of memory. -/
  memory : Memory
  /-- The registers and timers. -/
  registers : Registers
  /-- The calls in progress. -/
  stack : CallStack
  /-- The keys that are down. -/
  keypad : Keypad
  /-- The screen. -/
  display : Display
  /-- The screen may have changed since the front end last looked. -/
  redraw : Bool
  /-- The machine waits for a key. -/
  awaitingKey : Bool
  /-- The fault that stopped the machine, if one did. -/
  fault : Option Fault
  /-- The source of random bytes. -/
  random : Random
  /-- The seed that the random bytes start from. -/
  seed : UInt64
  /-- The choices on which interpreters disagree. -/
  profile : Profile
deriving DecidableEq

/-! ## The font in memory -/

namespace Memory

/-- Memory with the rows of a glyph put into the cells from `addr` on, the
first of them `row` cells further on. -/
def writeGlyph (m : Memory) (addr : UInt16) (row : Nat) : List UInt8 → Memory
  | [] => m
  | line :: lines => (m.write (addr + UInt16.ofNat row) line).writeGlyph addr (row + 1) lines

/-- Memory with glyphs put side by side. -/
def writeGlyphs (m : Memory) (addr : UInt16) : List (List UInt8) → Memory
  | [] => m
  | glyph :: glyphs =>
    (m.writeGlyph addr 0 glyph).writeGlyphs (addr + UInt16.ofNat Font.height) glyphs

/-- The rows of a glyph are a block. -/
theorem writeGlyph_eq (m : Memory) (addr : UInt16) (row : Nat) (lines : List UInt8) :
    m.writeGlyph addr row lines = m.writeBlock (addr + UInt16.ofNat row) lines := by
  induction lines generalizing m row with
  | nil => rfl
  | cons line lines ih => rw [writeGlyph, ih, Word.add_ofNat_succ, writeBlock]

/-- Glyphs of the usual height are one block, the next right after the one
before. -/
theorem writeGlyphs_eq (m : Memory) (addr : UInt16) {glyphs : List (List UInt8)}
    (h : ∀ glyph ∈ glyphs, glyph.length = Font.height) :
    m.writeGlyphs addr glyphs = m.writeBlock addr glyphs.flatten := by
  induction glyphs generalizing m addr with
  | nil => rfl
  | cons glyph glyphs ih =>
    rw [List.forall_mem_cons] at h
    rw [writeGlyphs, ih _ _ h.2, writeGlyph_eq, Word.add_ofNat_zero, List.flatten_cons,
      writeBlock_append, h.1]

end Memory

namespace Machine

/-- The machine as it is switched on. -/
def powerOn (seed : UInt64) (profile : Profile) : Machine where
  memory := Memory.blank.writeBlock Font.start Font.image
  registers := Registers.initial
  stack := CallStack.empty
  keypad := Keypad.released
  display := Display.blank
  redraw := false
  awaitingKey := false
  fault := none
  random := Random.ofSeed seed
  seed := seed
  profile := profile

/-- The machine before its first reset, with nothing in memory. -/
def blank (seed : UInt64) (profile : Profile) : Machine where
  memory := Memory.blank
  registers := Registers.initial
  stack := CallStack.empty
  keypad := Keypad.released
  display := Display.blank
  redraw := false
  awaitingKey := false
  fault := none
  random := Random.ofSeed seed
  seed := seed
  profile := profile

/-- The machine with each part put back: memory cleared and the font
written into it, everything else as it was in the beginning, and the random
bytes of the seed begun anew. -/
def reset (m : Machine) : Machine :=
  { m with
    memory := m.memory.clear.writeGlyphs Font.start Font.glyphs.toList
    registers := Registers.initial
    stack := m.stack.clear
    keypad := m.keypad.clear
    display := m.display.clear
    redraw := false
    awaitingKey := false
    fault := none
    random := Random.ofSeed m.seed }

/-- **A reset is as good as power-on**, with the seed and the profile of the
machine: no other part of it survives. -/
theorem reset_eq_powerOn (m : Machine) : m.reset = powerOn m.seed m.profile := by
  have hfont : m.memory.clear.writeGlyphs Font.start Font.glyphs.toList =
      Memory.blank.writeBlock Font.start Font.image := by
    rw [Memory.clear_eq, Memory.writeGlyphs_eq Memory.blank Font.start (by decide)]
    rfl
  rw [reset, hfont]
  rfl

/-- The machine with a program copied to the start of program memory, and
the address past its last byte. -/
def loadProgram (m : Machine) (program : List UInt8) : Except Fault (UInt16 × Machine) :=
  (m.memory.load Registers.programStart program).map fun (stop, memory) =>
    (stop, { m with memory := memory })

/-- The program counter. -/
def pc (m : Machine) : UInt16 :=
  m.registers.pc

/-- The index register. -/
def index (m : Machine) : UInt16 :=
  m.registers.index

/-- A byte register. -/
def v (m : Machine) (x : Digit) : UInt8 :=
  m.registers.v.get x

/-- The word at the program counter. -/
def fetch (m : Machine) : UInt16 :=
  m.memory.readWord m.pc

/-- Whether the sound timer is running. -/
def isSounding (m : Machine) : Bool :=
  0 < m.registers.sound

/-- The machine once the front end has taken the screen over. -/
def acknowledgeRedraw (m : Machine) : Machine :=
  { m with redraw := false }

/-! ## The register dump -/

/-- The frames of the call stack in brackets, outermost first. -/
def stackText (m : Machine) : String :=
  "[" ++ ", ".intercalate (m.stack.frames.map fun addr => Hex.lower 1 addr.toNat) ++ "]"

/-- The byte registers in brackets. -/
def registersText (m : Machine) : String :=
  "[" ++ " ".intercalate (m.registers.v.toList.map fun b => Hex.upper 2 b.toNat) ++ "]"

/-- One line with the program counter, the index register, the timers, the
call stack and the byte registers. -/
def dump (m : Machine) : String :=
  "PC=" ++ Hex.literal 3 m.pc.toNat ++ " I=" ++ Hex.literal 3 m.index.toNat ++
    " DT=" ++ toString m.registers.delay.toNat ++ " ST=" ++ toString m.registers.sound.toNat ++
    " STACK=" ++ m.stackText ++ " V=" ++ m.registersText

end Machine

end Chip8
