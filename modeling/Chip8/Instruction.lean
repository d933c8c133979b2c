import Chip8.Arithmetic
import Chip8.Word
/-!
# Instructions

The instruction table: thirty-four forms of a 16-bit word, told apart by
the first digit and, where that does not suffice, by the last digit or
the lower byte. `decode` reads a word, `encode` writes one; the digits
that a form does not look at are written as zero.
-/

namespace Chip8

/-- What a word tells the machine to do. Registers are named by digits. -/
inductive Instruction
  /-- `00E0`: every pixel is switched off. -/
  | clearScreen
  /-- `00EE`: the innermost call returns. -/
  | returnFromCall
  /-- `1NNN`: the program goes on elsewhere. -/
  | jump (target : Address)
  /-- `2NNN`: a call. -/
  | call (target : Address)
  /-- `3XNN`: the next instruction is skipped if a register holds a byte. -/
  | skipIfByte (x : Digit) (byte : UInt8)
  /-- `4XNN`: the next instruction is skipped if a register holds another
  byte. -/
  | skipUnlessByte (x : Digit) (byte : UInt8)
  /-- `5XY0`: the next instruction is skipped if two registers are equal. -/
  | skipIfEqual (x y : Digit)
  /-- `9XY0`: the next instruction is skipped if two registers differ. -/
  | skipUnlessEqual (x y : Digit)
  /-- `6XNN`: a byte is put into a register. -/
  | setByte (x : Digit) (byte : UInt8)
  /-- `7XNN`: a byte is added to a register, without a carry. -/
  | addByte (x : Digit) (byte : UInt8)
  /-- `8XYN`: arithmetic on two registers. -/
  | arithmetic (f : Arithmetic) (x y : Digit)
  /-- `ANNN`: the index register is set. -/
  | setIndex (target : Address)
  /-- `BNNN`: the program goes on as far past an address as V0 says. -/
  | jumpOffset (target : Address)
  /-- `CXNN`: a random byte under a mask is put into a register. -/
  | random (x : Digit) (mask : UInt8)
  /-- `DXYN`: a sprite of `rows` rows is drawn from the index register on. -/
  | draw (x y rows : Digit)
  /-- `EX9E`: the next instruction is skipped if a key is down. -/
  | skipIfKey (x : Digit)
  /-- `EXA1`: the next instruction is skipped if a key is up. -/
  | skipUnlessKey (x : Digit)
  /-- `FX07`: the delay timer is read. -/
  | getDelay (x : Digit)
  /-- `FX0A`: the machine waits for a key. -/
  | awaitKey (x : Digit)
  /-- `FX15`: the delay timer is set. -/
  | setDelay (x : Digit)
  /-- `FX18`: the sound timer is set. -/
  | setSound (x : Digit)
  /-- `FX1E`: a register is added to the index register, without a carry. -/
  | addIndex (x : Digit)
  /-- `FX29`: the index register is pointed at the glyph of a digit. -/
  | pointGlyph (x : Digit)
  /-- `FX33`: the three decimal digits of a register are stored. -/
  | storeDecimal (x : Digit)
  /-- `FX55`: the registers up to one are stored. -/
  | storeBlock (x : Digit)
  /-- `FX65`: the registers up to one are loaded. -/
  | loadBlock (x : Digit)
deriving DecidableEq, Repr, Inhabited

/-- The parts of an instruction word: its four digits, its lower byte and
its lower twelve bits. -/
structure Fields where
  /-- The first digit, which names the family. -/
  family : Digit
  /-- The second digit. -/
  x : Digit
  /-- The third digit. -/
  y : Digit
  /-- The last digit. -/
  n : Digit
  /-- The lower byte. -/
  byte : UInt8
  /-- The lower twelve bits. -/
  target : Address
deriving DecidableEq, Repr

/-- The parts of a word. -/
def Fields.ofWord (w : UInt16) : Fields where
  family := Word.digit w 4096
  x := Word.digit w 256
  y := Word.digit w 16
  n := Word.digit w 1
  byte := Word.lowByte w
  target := Address.ofWord w

namespace Instruction

/-! ## From words -/

/-- The instructions of family F, by their lower byte. -/
def ofMiscByte? (x : Digit) (byte : UInt8) : Option Instruction :=
  match byte.toNat with
  | 0x07 => some (getDelay x)
  | 0x0A => some (awaitKey x)
  | 0x15 => some (setDelay x)
  | 0x18 => some (setSound x)
  | 0x1E => some (addIndex x)
  | 0x29 => some (pointGlyph x)
  | 0x33 => some (storeDecimal x)
  | 0x55 => some (storeBlock x)
  | 0x65 => some (loadBlock x)
  | _ => none

/-- The instruction whose word has the given parts. -/
def ofFields? (f : Fields) : Option Instruction :=
  match f.family.val with
  | 0x0 =>
    match f.byte.toNat with
    | 0xE0 => some clearScreen
    | 0xEE => some returnFromCall
    | _ => none
  | 0x1 => some (jump f.target)
  | 0x2 => some (call f.target)
  | 0x3 => some (skipIfByte f.x f.byte)
  | 0x4 => some (skipUnlessByte f.x f.byte)
  | 0x5 => some (skipIfEqual f.x f.y)
  | 0x6 => some (setByte f.x f.byte)
  | 0x7 => some (addByte f.x f.byte)
  | 0x8 => (Arithmetic.ofCode? f.n.val).map fun op => arithmetic op f.x f.y
  | 0x9 => some (skipUnlessEqual f.x f.y)
  | 0xA => some (setIndex f.target)
  | 0xB => some (jumpOffset f.target)
  | 0xC => some (random f.x f.byte)
  | 0xD => some (draw f.x f.y f.n)
  | 0xE =>
    match f.byte.toNat with
    | 0x9E => some (skipIfKey f.x)
    | 0xA1 => some (skipUnlessKey f.x)
    | _ => none
  | 0xF => ofMiscByte? f.x f.byte
  | _ => none

/-- The instruction that a word stands for, if it stands for one. -/
def decode? (w : UInt16) : Option Instruction :=
  ofFields? (Fields.ofWord w)

/-! ## To words -/

/-- The word of a family with two registers and a last digit. -/
def wordOfDigits (family : Nat) (x y : Digit) (last : Nat) : UInt16 :=
  UInt16.ofNat (family * 4096 + x.val * 256 + y.val * 16 + last)

/-- The word of a family with a register and a byte. -/
def wordOfByte (family : Nat) (x : Digit) (byte : UInt8) : UInt16 :=
  UInt16.ofNat (family * 4096 + x.val * 256 + byte.toNat)

/-- The word of a family with an address. -/
def wordOfTarget (family : Nat) (target : Address) : UInt16 :=
  UInt16.ofNat (family * 4096 + target.val)

/-- The word of an instruction, with zero in the digits that its form does
not look at. -/
def encode : Instruction → UInt16
  | clearScreen => 0x00E0
  | returnFromCall => 0x00EE
  | jump target => wordOfTarget 0x1 target
  | call target => wordOfTarget 0x2 target
  | skipIfByte x byte => wordOfByte 0x3 x byte
  | skipUnlessByte x byte => wordOfByte 0x4 x byte
  | skipIfEqual x y => wordOfDigits 0x5 x y 0
  | setByte x byte => wordOfByte 0x6 x byte
  | addByte x byte => wordOfByte 0x7 x byte
  | arithmetic f x y => wordOfDigits 0x8 x y f.code
  | skipUnlessEqual x y => wordOfDigits 0x9 x y 0
  | setIndex target => wordOfTarget 0xA target
  | jumpOffset target => wordOfTarget 0xB target
  | random x mask => wordOfByte 0xC x mask
  | draw x y rows => wordOfDigits 0xD x y rows.val
  | skipIfKey x => wordOfByte 0xE x 0x9E
  | skipUnlessKey x => wordOfByte 0xE x 0xA1
  | getDelay x => wordOfByte 0xF x 0x07
  | awaitKey x => wordOfByte 0xF x 0x0A
  | setDelay x => wordOfByte 0xF x 0x15
  | setSound x => wordOfByte 0xF x 0x18
  | addIndex x => wordOfByte 0xF x 0x1E
  | pointGlyph x => wordOfByte 0xF x 0x29
  | storeDecimal x => wordOfByte 0xF x 0x33
  | storeBlock x => wordOfByte 0xF x 0x55
  | loadBlock x => wordOfByte 0xF x 0x65

end Instruction

end Chip8
