import Chip8.Instruction
import Chip8.Instruction.Assembly
/-!
# Mnemonics

The assembly text of an instruction, and the way back: `ofAssembly?` finds
the instruction of an assembly form if its numbers are in range
(`ofAssembly?_assembly`), and `ofMnemonic?` that of a text.
-/

namespace Chip8

namespace Instruction

open Operand

/-- The name of an operation between two registers. -/
def arithmeticName : Arithmetic → String
  | .copy => "LD"
  | .or => "OR"
  | .and => "AND"
  | .xor => "XOR"
  | .add => "ADD"
  | .subtract => "SUB"
  | .shiftRight => "SHR"
  | .subtractFrom => "SUBN"
  | .shiftLeft => "SHL"

/-- The assembly form of an instruction. -/
def assembly : Instruction → Assembly
  | clearScreen => ⟨"CLS", []⟩
  | returnFromCall => ⟨"RET", []⟩
  | jump target => ⟨"JP", [number target.val]⟩
  | call target => ⟨"CALL", [number target.val]⟩
  | skipIfByte x byte => ⟨"SE", [register x, number byte.toNat]⟩
  | skipUnlessByte x byte => ⟨"SNE", [register x, number byte.toNat]⟩
  | skipIfEqual x y => ⟨"SE", [register x, register y]⟩
  | skipUnlessEqual x y => ⟨"SNE", [register x, register y]⟩
  | setByte x byte => ⟨"LD", [register x, number byte.toNat]⟩
  | addByte x byte => ⟨"ADD", [register x, number byte.toNat]⟩
  | arithmetic f x y => ⟨arithmeticName f, [register x, register y]⟩
  | setIndex target => ⟨"LD", [index, number target.val]⟩
  | jumpOffset target => ⟨"JP", [register Digit.zero, number target.val]⟩
  | random x mask => ⟨"RND", [register x, number mask.toNat]⟩
  | draw x y rows => ⟨"DRW", [register x, register y, number rows.val]⟩
  | skipIfKey x => ⟨"SKP", [register x]⟩
  | skipUnlessKey x => ⟨"SKNP", [register x]⟩
  | getDelay x => ⟨"LD", [register x, delay]⟩
  | awaitKey x => ⟨"LD", [register x, key]⟩
  | setDelay x => ⟨"LD", [delay, register x]⟩
  | setSound x => ⟨"LD", [sound, register x]⟩
  | addIndex x => ⟨"ADD", [index, register x]⟩
  | pointGlyph x => ⟨"LD", [glyph, register x]⟩
  | storeDecimal x => ⟨"LD", [decimal, register x]⟩
  | storeBlock x => ⟨"LD", [block, register x]⟩
  | loadBlock x => ⟨"LD", [register x, block]⟩

/-- The assembly text of an instruction. -/
def mnemonic (i : Instruction) : String :=
  i.assembly.text

/-! ## Reading -/

/-- A number as a byte, if it is one. -/
def byteOf? (n : Nat) : Option UInt8 :=
  if n < 256 then some (UInt8.ofNat n) else none

/-- A number as an address, if it is one. -/
def addressOf? (n : Nat) : Option Address :=
  if h : n < 4096 then some ⟨n, h⟩ else none

/-- A number as a digit, if it is one. -/
def digitOf? (n : Nat) : Option Digit :=
  if h : n < 16 then some ⟨n, h⟩ else none

/-- The operation between two registers that goes by a name. -/
def arithmeticOf? : String → Option Arithmetic
  | "LD" => some .copy
  | "OR" => some .or
  | "AND" => some .and
  | "XOR" => some .xor
  | "ADD" => some .add
  | "SUB" => some .subtract
  | "SHR" => some .shiftRight
  | "SUBN" => some .subtractFrom
  | "SHL" => some .shiftLeft
  | _ => none

/-- The instruction of an assembly form, if its numbers are in range. -/
def ofAssembly? (a : Assembly) : Option Instruction :=
  match a.operands with
  | [] =>
    if a.name = "CLS" then some clearScreen
    else if a.name = "RET" then some returnFromCall
    else none
  | [number n] =>
    if a.name = "JP" then (addressOf? n).map jump
    else if a.name = "CALL" then (addressOf? n).map call
    else none
  | [register x] =>
    if a.name = "SKP" then some (skipIfKey x)
    else if a.name = "SKNP" then some (skipUnlessKey x)
    else none
  | [register x, number n] =>
    if a.name = "SE" then (byteOf? n).map (skipIfByte x)
    else if a.name = "SNE" then (byteOf? n).map (skipUnlessByte x)
    else if a.name = "LD" then (byteOf? n).map (setByte x)
    else if a.name = "ADD" then (byteOf? n).map (addByte x)
    else if a.name = "RND" then (byteOf? n).map (random x)
    else if a.name = "JP" ∧ x = Digit.zero then (addressOf? n).map jumpOffset
    else none
  | [register x, register y] =>
    if a.name = "SE" then some (skipIfEqual x y)
    else if a.name = "SNE" then some (skipUnlessEqual x y)
    else (arithmeticOf? a.name).map fun f => arithmetic f x y
  | [register x, register y, number n] =>
    if a.name = "DRW" then (digitOf? n).map (draw x y) else none
  | [index, number n] => if a.name = "LD" then (addressOf? n).map setIndex else none
  | [index, register x] => if a.name = "ADD" then some (addIndex x) else none
  | [register x, delay] => if a.name = "LD" then some (getDelay x) else none
  | [register x, key] => if a.name = "LD" then some (awaitKey x) else none
  | [register x, block] => if a.name = "LD" then some (loadBlock x) else none
  | [delay, register x] => if a.name = "LD" then some (setDelay x) else none
  | [sound, register x] => if a.name = "LD" then some (setSound x) else none
  | [glyph, register x] => if a.name = "LD" then some (pointGlyph x) else none
  | [decimal, register x] => if a.name = "LD" then some (storeDecimal x) else none
  | [block, register x] => if a.name = "LD" then some (storeBlock x) else none
  | _ => none

/-- The instruction whose assembly text is given. -/
def ofMnemonic? (s : String) : Option Instruction :=
  (Assembly.ofText? s.toList).bind ofAssembly?

/-- The assembly form of an instruction reads back as that instruction. -/
theorem ofAssembly?_assembly (i : Instruction) : ofAssembly? i.assembly = some i := by
  have byte_lt (b : UInt8) : b.toNat < 256 := b.toNat_lt
  cases i with
  | arithmetic f x y => cases f <;> rfl
  | _ => simp [assembly, ofAssembly?, addressOf?, byteOf?, digitOf?, byte_lt]

end Instruction

end Chip8
