import Chip8.Machine
/-!
# What each instruction does

`execute` is the machine after one instruction. Apart from jumps, calls,
returns and skips, the program counter moves on by one word, modulo 2^16.
A call with no level left and a return with no call are faults, and then
there is no machine after the instruction.
-/

namespace Chip8

namespace Machine

/-- The machine with the program counter elsewhere. -/
def goTo (m : Machine) (pc : UInt16) : Machine :=
  { m with registers := { m.registers with pc := pc } }

/-- The machine at the next word. -/
def next (m : Machine) : Machine :=
  m.goTo (m.pc + 2)

/-- The machine at the next word, or past it if a condition holds. -/
def skipIf (m : Machine) (condition : Bool) : Machine :=
  m.goTo (if condition then m.pc + 4 else m.pc + 2)

/-- The machine with a byte put into a register. -/
def setV (m : Machine) (x : Digit) (b : UInt8) : Machine :=
  { m with registers := m.registers.set x b }

/-- The machine with the index register elsewhere. -/
def setIndex (m : Machine) (addr : UInt16) : Machine :=
  { m with registers := { m.registers with index := addr } }

/-- The machine with the index register past a block of registers, if that
is the profile's choice. -/
def advanceIndex (m : Machine) (x : Digit) (advances : Bool) : Machine :=
  if advances then m.setIndex (m.index + (Digit.toWord x + 1)) else m

/-- A call: the address of the next word is kept for the return. -/
def call (m : Machine) (target : UInt16) : Except Fault Machine :=
  match m.stack.push? (m.pc + 2) with
  | none => .error (.stackOverflow m.pc)
  | some stack => .ok ({ m with stack := stack }.goTo target)

/-- A return to the address kept by the innermost call. -/
def returnFromCall (m : Machine) : Except Fault Machine :=
  match m.stack.pop? with
  | none => .error (.stackUnderflow m.pc)
  | some (addr, stack) => .ok ({ m with stack := stack }.goTo addr)

/-- Arithmetic on two registers. The flag is written last, so that the
flag register ends up with the flag also when it is the target. -/
def compute (m : Machine) (f : Arithmetic) (x y : Digit) : Machine :=
  match f.apply m.profile (m.v x) (m.v y) with
  | (result, none) => { m with registers := m.registers.setWide x result }
  | (result, some on) => { m with registers := (m.registers.setWide x result).setFlag on }

/-- A random number below 256, as a byte under a mask, put into a register. -/
def drawRandom (m : Machine) (x : Digit) (mask : UInt8) : Machine :=
  let drawn := m.random.inRange 0 0x100
  { m with random := drawn.2 }.setV x (drawn.1.toUInt8 &&& mask)

/-- A sprite from memory drawn at the place that two registers give; the
flag tells whether a lit pixel was switched off. -/
def drawSprite (m : Machine) (x y rows : Digit) : Machine :=
  let sprite := m.memory.readBlock m.index rows.val
  let drawing := m.display.draw sprite (m.v x).toNat (m.v y).toNat
  { m with
    display := drawing.display
    registers := m.registers.setFlag drawing.collision
    redraw := true }

/-- The lowest key that is down goes into a register; while no key is down
the machine stays where it is. -/
def awaitKey (m : Machine) (x : Digit) : Machine :=
  match m.keypad.first? with
  | some key => { m with awaitingKey := false }.setV x (Digit.toByte key) |>.next
  | none => { m with awaitingKey := true }

/-- The hundreds, tens and ones of a byte. -/
def decimalDigits (b : UInt8) : List UInt8 :=
  [b / 100, b / 10 % 10, b % 10]

/-- The registers up to one stored in memory. -/
def storeBlock (m : Machine) (x : Digit) : Machine :=
  { m with memory := m.memory.writeBlock m.index (m.registers.upTo x) }.advanceIndex x
    m.profile.storeAdvancesIndex

/-- The registers up to one loaded from memory. -/
def loadBlock (m : Machine) (x : Digit) : Machine :=
  let loaded := m.registers.replaceUpTo x fun r => m.memory.read (m.index + Digit.toWord r)
  { m with registers := loaded }.advanceIndex x m.profile.loadAdvancesIndex

/-- The machine after an instruction. -/
def execute (m : Machine) : Instruction → Except Fault Machine
  | .clearScreen => .ok { m with display := Display.blank, redraw := true }.next
  | .returnFromCall => m.returnFromCall
  | .jump target => .ok (m.goTo (Address.toWord target))
  | .call target => m.call (Address.toWord target)
  | .skipIfByte x byte => .ok (m.skipIf (m.v x == byte))
  | .skipUnlessByte x byte => .ok (m.skipIf (m.v x != byte))
  | .skipIfEqual x y => .ok (m.skipIf (m.v x == m.v y))
  | .skipUnlessEqual x y => .ok (m.skipIf (m.v x != m.v y))
  | .setByte x byte => .ok (m.setV x byte).next
  | .addByte x byte => .ok (m.setV x (m.v x + byte)).next
  | .arithmetic f x y => .ok (m.compute f x y).next
  | .setIndex target => .ok (m.setIndex (Address.toWord target)).next
  | .jumpOffset target => .ok (m.goTo (Address.toWord target + (m.v Digit.zero).toUInt16))
  | .random x mask => .ok (m.drawRandom x mask).next
  | .draw x y rows => .ok (m.drawSprite x y rows).next
  | .skipIfKey x => .ok (m.skipIf (m.keypad.isPressed (m.v x)))
  | .skipUnlessKey x => .ok (m.skipIf !m.keypad.isPressed (m.v x))
  | .getDelay x => .ok (m.setV x m.registers.delay).next
  | .awaitKey x => .ok (m.awaitKey x)
  | .setDelay x => .ok { m with registers := { m.registers with delay := m.v x } }.next
  | .setSound x => .ok { m with registers := { m.registers with sound := m.v x } }.next
  | .addIndex x => .ok (m.setIndex (m.index + (m.v x).toUInt16)).next
  | .pointGlyph x => .ok (m.setIndex (Font.glyphAddress (m.v x))).next
  | .storeDecimal x =>
    .ok { m with memory := m.memory.writeBlock m.index (decimalDigits (m.v x)) }.next
  | .storeBlock x => .ok (m.storeBlock x).next
  | .loadBlock x => .ok (m.loadBlock x).next

end Machine

end Chip8
