import Chip8.Guarded.Stack
import Chip8.Machine
/-!
# The machine in checked cells

The machine with nothing in it but cells and words of a fixed width: a
pixel is a byte, the depth of the call stack is a byte, and an operand is a
byte cut out of the instruction word. Every cell is reached through a
position that is checked, and every sum, difference and product that is not
meant to wrap around has to fit its word. Where a check fails there is no
board after the operation.
-/

namespace Chip8

namespace Guarded

/-! ## Blocks

A block copied into memory and a block read out of it, each through a range
of cells whose ends are computed in words and checked. There is no result
if an end leaves its word, or if the range runs backwards, leaves memory or
is not as long as the block that goes into it. -/

/-- A block copied into memory: the address past its last byte, or the
fault that refuses it, and the cells afterwards in either case. -/
def load? (cells : Buffer UInt8 4096) (addr : UInt16) (block : List UInt8) :
    Option (Except Fault UInt16 × Buffer UInt8 4096) := do
  let start := (addr &&& Memory.mask).toNat
  let capacity ← sub? Memory.size start
  if capacity < block.length then
    some (.error (.load block.length capacity), cells)
  else do
    let stop ← fit? UInt64.size (start + block.length)
    let cells ← copy? cells start stop block
    some (.ok (UInt16.ofNat stop), cells)

/-- At most `count` bytes from a cell on, cut short at the end of memory.
The end that was asked for is computed before it is cut. -/
def slice? (cells : Buffer UInt8 4096) (addr : UInt16) (count : UInt64) :
    Option (List UInt8) := do
  let start := (addr &&& Memory.mask).toNat
  let stop ← fit? UInt64.size (start + count.toNat)
  cells.slice? start (min stop Memory.size)

/-! ## The whole machine -/

/-- The state of the whole machine, in cells: `v` holds the byte registers,
`slots` the return addresses, of which `depth` are in use, and `frame` the
pixels, one or zero, row by row. -/
structure Board where
  memory : Buffer UInt8 4096
  v : Buffer UInt8 16
  index : UInt16
  pc : UInt16
  delay : UInt8
  sound : UInt8
  slots : Buffer UInt16 16
  depth : UInt8
  keys : Buffer Bool 16
  frame : Buffer UInt8 2048
  redraw : Bool
  awaitingKey : Bool
  fault : Option Fault
  random : Random
  seed : UInt64
  profile : Profile

namespace Board

variable (s : Board)

/-! ## Registers -/

/-- A byte register. -/
def register? (x : UInt8) : Option UInt8 :=
  s.v.at? x.toNat

/-- The board with a byte put into a register. -/
def setRegister? (x b : UInt8) : Option Board := do
  let v ← s.v.put? x.toNat b
  some { s with v := v }

/-- The board with the lower byte of a wide result put into the register
that a digit names. -/
def setWide? (x : UInt8) (w : UInt16) : Option Board :=
  s.setRegister? (x &&& 0xF) (w &&& 0xFF).toUInt8

/-- The board with the flag set to one or zero. -/
def setFlag? (on : Bool) : Option Board :=
  s.setRegister? 0xF (if on then 1 else 0)

/-- The board with the flag set to one if a condition holds. -/
def raiseFlag? (on : Bool) : Option Board :=
  if on then s.setFlag? true else some s

/-- The board with the program counter elsewhere. -/
def goTo (pc : UInt16) : Board :=
  { s with pc := pc }

/-- The board at the next word. -/
def next : Board :=
  s.goTo (s.pc + 2)

/-- The board at the next word, or past it if a condition holds. -/
def skipIf (condition : Bool) : Board :=
  s.goTo (if condition then s.pc + 4 else s.pc + 2)

/-- A timer one lower, unless it is at zero. -/
def countDown? (timer : UInt8) : Option UInt8 :=
  if 0 < timer then (sub? timer.toNat 1).bind byte? else some timer

/-! ## Memory -/

/-- The byte in the cell that a word names. -/
def read? (addr : UInt16) : Option UInt8 :=
  s.memory.at? (addr &&& Memory.mask).toNat

/-- The board with a byte put into the cell that a word names. -/
def write? (addr : UInt16) (b : UInt8) : Option Board := do
  let memory ← s.memory.put? (addr &&& Memory.mask).toNat b
  some { s with memory := memory }

/-- The word at the program counter. -/
def fetch? : Option UInt16 := do
  let high ← s.read? s.pc
  let low ← s.read? (s.pc + 1)
  some (Word.ofBytes high low)

/-- The board with a program copied to the start of program memory, and the
address past its last byte. -/
def load? (program : List UInt8) : Option (Except Fault (UInt16 × Board)) := do
  let (result, memory) ← Guarded.load? s.memory Registers.programStart program
  some (result.map fun stop => (stop, { s with memory := memory }))

/-! ## Keys -/

/-- Whether a key is down. -/
def isPressed? (key : UInt8) : Option Bool :=
  s.keys.at? (key &&& 0xF).toNat

/-- The board with a key put down or let up. -/
def setKey? (key : UInt8) (down : Bool) : Option Board := do
  let keys ← s.keys.put? (key &&& 0xF).toNat down
  some { s with keys := keys }

/-- The lowest key that is down. -/
def firstKey? : Option UInt8 :=
  (s.keys.findFinIdx? id).map fun key => UInt8.ofNat key.val

/-! ## Calls -/

/-- The call stack, apart from the rest. -/
def stack : Stack := ⟨s.slots, s.depth⟩

/-- A call, which needs a slot for the address of the next word. -/
def call? (target : UInt16) : Option (Except Fault Board) := do
  let (reply, f) ← s.stack.push? (s.pc + 2)
  some (match reply with
    | .ok _ => .ok { s with slots := f.slots, depth := f.depth, pc := target }
    | .error _ => .error (.stackOverflow s.pc))

/-- A return to the address in the last slot in use. -/
def returnFromCall? : Option (Except Fault Board) := do
  let (reply, f) ← s.stack.pop?
  some (match reply with
    | .ok (.address addr) => .ok { s with slots := f.slots, depth := f.depth, pc := addr }
    | .ok .done | .error _ => .error (.stackUnderflow s.pc))

end Board

/-! ## The font -/

/-- Memory with the rows of a glyph written from a row on. -/
def writeGlyph? (memory : Buffer UInt8 4096) (addr : UInt16) (row : Nat) :
    List UInt8 → Option (Buffer UInt8 4096)
  | [] => some memory
  | line :: lines => do
    let place ← word? (addr.toNat + row)
    let memory ← memory.put? (place &&& Memory.mask).toNat line
    writeGlyph? memory addr (row + 1) lines

/-- Memory with glyphs written one after the other. -/
def writeGlyphs? (memory : Buffer UInt8 4096) (addr : UInt16) :
    List (List UInt8) → Option (Buffer UInt8 4096)
  | [] => some memory
  | glyph :: glyphs => do
    let memory ← writeGlyph? memory addr 0 glyph
    let addr ← word? (addr.toNat + Font.height)
    writeGlyphs? memory addr glyphs

/-- Where the glyph of the lower digit of a byte begins. -/
def glyphAddress? (b : UInt8) : Option UInt16 := do
  let past ← word? (Font.height * (b &&& 0xF).toNat)
  word? (Font.start.toNat + past.toNat)

/-! ## Sprites -/

/-- A screen in the course of drawing, and whether a lit pixel has been
switched off so far. -/
structure Painting where
  frame : Buffer UInt8 2048
  collision : Bool

/-- The dot in one column of a row, if the row has one there, switched
over. -/
def Painting.plot? (t : Painting) (startX : UInt8) (frameY : Nat) (line : UInt8)
    (column : Nat) : Option Painting := do
  let bit ← shiftRight? 0x80 column
  if line &&& bit = 0 then some t
  else do
    let x ← fit? UInt64.size (startX.toNat + column)
    let rowStart ← fit? UInt64.size (frameY * Display.width)
    let place ← fit? UInt64.size (rowStart + x % Display.width)
    let pixel ← t.frame.at? place
    let frame ← t.frame.put? place (pixel ^^^ 1)
    some ⟨frame, pixel == 1 || t.collision⟩

/-- The rows of a sprite from a row on, each column of each. -/
def Painting.plotRows? (t : Painting) (startX startY : UInt8) (row : Nat) :
    List UInt8 → Option Painting
  | [] => some t
  | line :: lines => do
    let y ← fit? UInt64.size (startY.toNat + row)
    let t ← (List.range 8).foldlM
      (fun t column => t.plot? startX (y % Display.height) line column) t
    t.plotRows? startX startY (row + 1) lines

/-- The tallest sprite. -/
def tallest : Nat := 15

namespace Board

/-- The bytes of a sprite at the index register, in a buffer for the
tallest one. -/
def sprite? (s : Board) (rows : Nat) : Option (Buffer UInt8 tallest) := do
  let lines ← (List.range rows).mapM fun row => s.read? (s.index + UInt16.ofNat row)
  some (Vector.ofFn fun row => lines.getD row.val 0)

/-- A sprite drawn at the place that two registers give, which are read
before the flag is cleared. -/
def drawSprite? (s : Board) (x y n : UInt8) : Option Board := do
  let startX ← s.register? x
  let startY ← s.register? y
  let rows := min n.toNat tallest
  let sprite ← s.sprite? rows
  let s ← s.setFlag? false
  let lines ← sprite.slice? 0 rows
  let painting ← Painting.plotRows? ⟨s.frame, false⟩ startX startY 0 lines
  let s ← s.raiseFlag? painting.collision
  some { s with frame := painting.frame, redraw := true }

end Board

end Guarded

end Chip8
