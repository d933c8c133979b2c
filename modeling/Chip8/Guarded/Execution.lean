import Chip8.Guarded.Board
import Chip8.Machine.Action
/-!
# Instructions and actions in checked cells

What each instruction and each action does to a board. An instruction's
operands are cut out of its word by masks and shifts; nothing but the
checks keeps them inside the registers that they name. A run of actions has
a board after it when every check on the way goes through.
-/

namespace Chip8

namespace Guarded

/-- The operands in an instruction word. -/
structure Operands where
  x : UInt8
  y : UInt8
  n : UInt8
  byte : UInt8
  target : UInt16

/-- The operands of a word, by mask and shift. -/
def Operands.ofWord (w : UInt16) : Operands where
  x := ((w &&& 0x0F00) >>> 8).toUInt8
  y := ((w &&& 0x00F0) >>> 4).toUInt8
  n := (w &&& 0x000F).toUInt8
  byte := (w &&& 0x00FF).toUInt8
  target := w &&& 0x0FFF

namespace Board

variable (s : Board)

/-! ## Instructions -/

/-- Arithmetic on two registers. -/
def compute? (f : Arithmetic) (x y : UInt8) : Option Board :=
  match f with
  | .copy => do
    s.setRegister? x (← s.register? y)
  | .or => do
    s.setRegister? x ((← s.register? x) ||| (← s.register? y))
  | .and => do
    s.setRegister? x ((← s.register? x) &&& (← s.register? y))
  | .xor => do
    s.setRegister? x ((← s.register? x) ^^^ (← s.register? y))
  | .add => do
    let sum ← word? ((← s.register? x).toNat + (← s.register? y).toNat)
    (← s.setWide? x sum).setFlag? (0xFF < sum)
  | .subtract => do
    let a ← s.register? x
    let b ← s.register? y
    (← s.setWide? x (a.toUInt16 - b.toUInt16)).setFlag? (b ≤ a)
  | .subtractFrom => do
    let a ← s.register? x
    let b ← s.register? y
    (← s.setWide? x (b.toUInt16 - a.toUInt16)).setFlag? (a ≤ b)
  | .shiftRight => do
    let source ← s.register? (if s.profile.shiftReadsSecond then y else x)
    (← s.setRegister? x (source >>> 1)).setFlag? (source &&& 0x01 ≠ 0)
  | .shiftLeft => do
    let source ← s.register? (if s.profile.shiftReadsSecond then y else x)
    (← s.setWide? x (source.toUInt16 <<< 1)).setFlag? (source &&& 0x80 ≠ 0)

/-- The wait for a key. -/
def awaitKey? (x : UInt8) : Option Board :=
  match s.firstKey? with
  | some key => do
    let s ← s.setRegister? x key
    some { s with awaitingKey := false }.next
  | none => some { s with awaitingKey := true }

/-- The three decimal digits of a register stored in memory. -/
def storeDecimal? (x : UInt8) : Option Board := do
  let b ← s.register? x
  let s ← s.write? s.index (b / 100)
  let s ← s.write? (s.index + 1) (b / 10 % 10)
  s.write? (s.index + 2) (b % 10)

/-- The board with the index register past a block of registers, if that is
the profile's choice. -/
def advanceIndex? (x : UInt8) (advances : Bool) : Option Board :=
  if advances then do
    let count ← word? (x.toNat + 1)
    some { s with index := s.index + count }
  else some s

/-- A register stored at its place in the block at the index register. -/
def storeRegister? (r : Nat) : Option Board := do
  s.write? (s.index + UInt16.ofNat r) (← s.register? (UInt8.ofNat r))

/-- A register loaded from its place in the block at the index register. -/
def loadRegister? (r : Nat) : Option Board := do
  s.setRegister? (UInt8.ofNat r) (← s.read? (s.index + UInt16.ofNat r))

/-- The registers up to one stored in memory, one after the other. -/
def storeBlock? (x : UInt8) : Option Board := do
  let s ← (List.range (x.toNat + 1)).foldlM storeRegister? s
  s.advanceIndex? x s.profile.storeAdvancesIndex

/-- The registers up to one loaded from memory, one after the other. -/
def loadBlock? (x : UInt8) : Option Board := do
  let s ← (List.range (x.toNat + 1)).foldlM loadRegister? s
  s.advanceIndex? x s.profile.loadAdvancesIndex

/-- The board after an instruction with the operands of its word, or the
fault that the instruction runs into. -/
def execute? (i : Instruction) (o : Operands) : Option (Except Fault Board) :=
  match i with
  | .clearScreen => some (.ok { s with frame := Buffer.blank, redraw := true }.next)
  | .returnFromCall => s.returnFromCall?
  | .jump _ => some (.ok (s.goTo o.target))
  | .call _ => s.call? o.target
  | .skipIfByte _ _ => do
    some (.ok (s.skipIf ((← s.register? o.x) == o.byte)))
  | .skipUnlessByte _ _ => do
    some (.ok (s.skipIf ((← s.register? o.x) != o.byte)))
  | .skipIfEqual _ _ => do
    some (.ok (s.skipIf ((← s.register? o.x) == (← s.register? o.y))))
  | .skipUnlessEqual _ _ => do
    some (.ok (s.skipIf ((← s.register? o.x) != (← s.register? o.y))))
  | .setByte _ _ => do
    some (.ok (← s.setRegister? o.x o.byte).next)
  | .addByte _ _ => do
    some (.ok (← s.setRegister? o.x ((← s.register? o.x) + o.byte)).next)
  | .arithmetic f _ _ => do
    some (.ok (← s.compute? f o.x o.y).next)
  | .setIndex _ => some (.ok { s with index := o.target }.next)
  | .jumpOffset _ => do
    some (.ok (s.goTo (← word? (o.target.toNat + (← s.register? 0).toNat))))
  | .random _ _ => do
    let drawn := s.random.inRange 0 0x100
    let s ← { s with random := drawn.2 }.setRegister? o.x (drawn.1.toUInt8 &&& o.byte)
    some (.ok s.next)
  | .draw _ _ _ => do
    some (.ok (← s.drawSprite? o.x o.y o.n).next)
  | .skipIfKey _ => do
    some (.ok (s.skipIf (← s.isPressed? (← s.register? o.x))))
  | .skipUnlessKey _ => do
    some (.ok (s.skipIf !(← s.isPressed? (← s.register? o.x))))
  | .getDelay _ => do
    some (.ok (← s.setRegister? o.x s.delay).next)
  | .awaitKey _ => do
    some (.ok (← s.awaitKey? o.x))
  | .setDelay _ => do
    some (.ok { s with delay := ← s.register? o.x }.next)
  | .setSound _ => do
    some (.ok { s with sound := ← s.register? o.x }.next)
  | .addIndex _ => do
    some (.ok { s with index := s.index + (← s.register? o.x).toUInt16 }.next)
  | .pointGlyph _ => do
    some (.ok { s with index := ← glyphAddress? (← s.register? o.x) }.next)
  | .storeDecimal _ => do
    some (.ok (← s.storeDecimal? o.x).next)
  | .storeBlock _ => do
    some (.ok (← s.storeBlock? o.x).next)
  | .loadBlock _ => do
    some (.ok (← s.loadBlock? o.x).next)

/-! ## Actions -/

/-- The board after the instruction at the program counter. -/
def step? : Option (Except Fault Board) := do
  let word ← s.fetch?
  match Instruction.decode? word with
  | none => some (.error (.decode s.pc word))
  | some i => s.execute? i (Operands.ofWord word)

/-- One cycle: whether it went through, and the board after it. -/
def cycle? : Option (Except Fault Unit × Board) :=
  match s.fault with
  | some f => some (.error f, s)
  | none => do
    match ← s.step? with
    | .ok s => some (.ok (), s)
    | .error f => some (.error f, { s with fault := some f })

/-- One timer period: whether the sound timer was running, and the board
with both timers counted down. -/
def timerPeriod? : Option (Bool × Board) := do
  let delay ← countDown? s.delay
  let sound ← countDown? s.sound
  some (0 < s.sound, { s with delay := delay, sound := sound })

/-- The board with nothing in its cells. -/
def blank (seed : UInt64) (profile : Profile) : Board where
  memory := Buffer.blank
  v := Buffer.blank
  index := 0
  pc := Registers.programStart
  delay := 0
  sound := 0
  slots := Buffer.blank
  depth := 0
  keys := Buffer.blank
  frame := Buffer.blank
  redraw := false
  awaitingKey := false
  fault := none
  random := Random.ofSeed seed
  seed := seed
  profile := profile

/-- The board back at power-on: every cell blank but for the font. -/
def reset? : Option Board := do
  let memory ← writeGlyphs? Buffer.blank Font.start Font.glyphs.toList
  some { blank s.seed s.profile with memory := memory }

/-- The board as it is switched on. -/
def powerOn? (seed : UInt64) (profile : Profile) : Option Board :=
  (blank seed profile).reset?

/-- The reply to an action, or the fault it fails with, and the board after
it. -/
def perform? : Machine.Action → Option (Except Fault Machine.Reply × Board)
  | .load program => do
    match ← s.load? program with
    | .ok (_, s) => some (.ok .done, s)
    | .error f => some (.error f, s)
  | .reset => do
    some (.ok .done, ← s.reset?)
  | .cycle => do
    let (result, s) ← s.cycle?
    some (result.map fun () => .done, s)
  | .timerPeriod => do
    let (tone, s) ← s.timerPeriod?
    some (.ok (.tone tone), s)
  | .setKeys keys => some (.ok .done, { s with keys := keys.down })
  | .press key => do
    some (.ok .done, ← s.setKey? key true)
  | .release key => do
    some (.ok .done, ← s.setKey? key false)
  | .acknowledgeRedraw => some (.ok .done, { s with redraw := false })

/-- The board after a list of actions. -/
def run? (s : Board) : List Machine.Action → Option Board
  | [] => some s
  | a :: actions => do
    let (_, s) ← s.perform? a
    s.run? actions

end Board

end Guarded

end Chip8
