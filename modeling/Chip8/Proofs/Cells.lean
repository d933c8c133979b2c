import Chip8.Guarded.Execution
/-!
# A machine as a board

A machine laid out in checked cells, and what each checked access to those
cells gives. Each is an equation with a result on its right: a digit is
inside the sixteen registers and keys, the lower twelve bits of a word are
inside memory, a place on the screen is inside the frame, and the depth of
the call stack is inside its slots. With these equations a computation on
the board is rewritten, check by check, into the one on the machine.
-/

namespace Chip8

open Guarded

/-! ## Positions inside -/

namespace Buffer

variable {α : Type} {n : Nat}

theorem at?_val (b : Buffer α n) (i : Fin n) : b.at? (i.val : Int) = some (b.get i) := by
  have h : (0 : Int) ≤ i.val := by omega
  rw [at?, if_pos h, Int.toNat_natCast, get_eq_getElem]
  exact Vector.getElem?_eq_getElem i.isLt

theorem put?_val (b : Buffer α n) (i : Fin n) (a : α) :
    b.put? (i.val : Int) a = some (b.put i a) := by
  have h : 0 ≤ (i.val : Int) ∧ (i.val : Int).toNat < n := by
    rw [Int.toNat_natCast]
    exact ⟨by omega, i.isLt⟩
  rw [put?, dif_pos h]
  rfl

theorem put_put (b : Buffer α n) (i : Fin n) (a c : α) : (b.put i a).put i c = b.put i c := by
  apply ext_get
  intro j
  simp only [get_put]
  split <;> rfl

end Buffer

/-- No place in memory or on the screen is near the end of a 64-bit word. -/
theorem fit?_of_le {n : Nat} (h : n ≤ 4096) : fit? UInt64.size n = some n :=
  fit?_of_lt (Nat.lt_of_le_of_lt h (by decide))

/-! ## Digits and addresses by mask and shift -/

theorem toNat_and_mask (w : UInt16) : (w &&& Memory.mask).toNat = (Address.ofWord w).val := by
  rw [UInt16.toNat_and]
  exact Nat.and_two_pow_sub_one_eq_mod _ 12

theorem toNat_and_fifteen (b : UInt8) : (b &&& 0xF).toNat = (Digit.ofByte b).val := by
  rw [UInt8.toNat_and]
  exact Nat.and_two_pow_sub_one_eq_mod _ 4

theorem toUInt8_and_lowByte (w : UInt16) : (w &&& 0xFF).toUInt8 = Word.lowByte w := by
  apply UInt8.toNat_inj.1
  have h : (w &&& 0xFF).toNat = w.toNat % 256 := by
    rw [UInt16.toNat_and]
    exact Nat.and_two_pow_sub_one_eq_mod _ 8
  rw [Word.lowByte, UInt16.toNat_toUInt8, UInt16.toNat_toUInt8, h]
  exact Nat.mod_mod _ _

theorem Digit.toByte_mk {k : Nat} (h : k < 16) : Digit.toByte ⟨k, h⟩ = UInt8.ofNat k := rfl

theorem toByte_and_fifteen (x : Digit) : Digit.toByte x &&& 0xF = Digit.toByte x := by
  apply UInt8.toNat_inj.1
  rw [toNat_and_fifteen, Digit.ofByte_toByte, Digit.toNat_toByte]

/-- Four bits of a word, cut out by a mask and shifted down, are the digit
at their place. -/
theorem toUInt8_digit (w : UInt16) {mask shift : UInt16} {k : Nat}
    (hm : mask.toNat = 15 <<< k) (hs : shift.toNat % 16 = k) :
    ((w &&& mask) >>> shift).toUInt8 = Digit.toByte (Word.digit w (1 <<< k)) := by
  apply UInt8.toNat_inj.1
  have h : ((w &&& mask) >>> shift).toNat = w.toNat / 1 <<< k % 16 := by
    rw [UInt16.toNat_shiftRight, UInt16.toNat_and, hm, hs, Nat.shiftRight_and_distrib,
      Nat.shiftLeft_shiftRight, Nat.shiftRight_eq_div_pow, Nat.one_shiftLeft]
    exact Nat.and_two_pow_sub_one_eq_mod _ 4
  rw [Digit.toNat_toByte, UInt16.toNat_toUInt8, h, Word.digit, Fin.val_ofNat]
  exact Nat.mod_eq_of_lt (by omega)

/-- The parts of a word that are operands, as bytes and words. -/
def Fields.operands (f : Fields) : Operands where
  x := Digit.toByte f.x
  y := Digit.toByte f.y
  n := Digit.toByte f.n
  byte := f.byte
  target := Address.toWord f.target

/-- **The operands that a word holds** name registers, counts and
addresses: the masks leave nothing else. -/
theorem Operands.ofWord_eq (w : UInt16) : Operands.ofWord w = (Fields.ofWord w).operands := by
  have hx : ((w &&& 0x0F00) >>> 8).toUInt8 = Digit.toByte (Word.digit w 256) :=
    toUInt8_digit (k := 8) w rfl rfl
  have hy : ((w &&& 0x00F0) >>> 4).toUInt8 = Digit.toByte (Word.digit w 16) :=
    toUInt8_digit (k := 4) w rfl rfl
  have hn : (w &&& 0x000F).toUInt8 = Digit.toByte (Word.digit w 1) := by
    have h : ((w &&& 0x000F) >>> 0).toUInt8 = Digit.toByte (Word.digit w 1) :=
      toUInt8_digit (k := 0) w rfl rfl
    rwa [UInt16.shiftRight_zero] at h
  have htarget : w &&& 0x0FFF = Address.toWord (Address.ofWord w) := by
    apply UInt16.toNat_inj.1
    rw [Address.toNat_toWord]
    exact toNat_and_mask w
  simp only [Operands.ofWord, Fields.operands, Fields.ofWord, hx, hy, hn, htarget,
    toUInt8_and_lowByte]

/-! ## The depth as a byte -/

namespace CallStack

theorem toNat_ofNat_depth (s : CallStack) : (UInt8.ofNat s.depth).toNat = s.depth := by
  have := s.depth_le
  rw [UInt8.toNat_ofNat']
  omega

/-- The last slot in use is inside the slots. -/
theorem at?_last {slots : Buffer UInt16 16} {d : Nat} (h : d < 16) :
    slots.at? ((UInt8.ofNat d).toNat : Int) = some (slots.get ⟨d, h⟩) := by
  rw [toNat_ofNat_depth ⟨slots, d, Nat.le_of_lt h⟩]
  exact Buffer.at?_val slots ⟨d, h⟩

/-- A call stack laid out in cells. -/
def cells (s : CallStack) : Stack := ⟨s.slots, UInt8.ofNat s.depth⟩

theorem toNat_depth_cells (s : CallStack) : s.cells.depth.toNat = s.depth :=
  s.toNat_ofNat_depth

/-- A push writes a slot below the sixteenth, and the count after it is a
byte. -/
theorem push?_cells (s : CallStack) (addr : UInt16) :
    s.cells.push? addr =
      some ((s.perform (.push addr)).1, (s.perform (.push addr)).2.cells) := by
  unfold Stack.push?
  rw [toNat_depth_cells]
  by_cases h : s.depth < levels
  · have hput : s.cells.slots.put? (s.depth : Int) addr = some (s.slots.set s.depth addr h) :=
      Buffer.put?_val s.slots ⟨s.depth, h⟩ addr
    have hdepth : byte? (s.depth + 1) = some (UInt8.ofNat (s.depth + 1)) := by
      apply byte?_of_lt
      have := s.depth_le
      omega
    have hpush : s.push? addr = some ⟨s.slots.set s.depth addr h, s.depth + 1, h⟩ := dif_pos h
    rw [if_neg (Nat.not_le.2 h), hput, hdepth, perform_push_of_eq_some hpush]
    rfl
  · have hfull : s.push? addr = none := dif_neg h
    rw [if_pos (Nat.not_lt.1 h), perform_push_of_eq_none hfull]

/-- A pop reads the last slot in use, since there is one. -/
theorem pop?_cells (s : CallStack) :
    s.cells.pop? = some ((s.perform .pop).1, (s.perform .pop).2.cells) := by
  have htoNat := s.toNat_depth_cells
  unfold Stack.pop?
  obtain ⟨slots, depth, hle⟩ := s
  cases depth with
  | zero =>
    rw [if_pos (UInt8.toNat_inj.1 htoNat)]
    rfl
  | succ d =>
    have hne : (cells ⟨slots, d + 1, hle⟩).depth ≠ 0 := by
      intro h
      rw [h] at htoNat
      exact absurd htoNat.symm (Nat.succ_ne_zero d)
    have hdepth : (sub? (cells ⟨slots, d + 1, hle⟩).depth.toNat 1).bind byte? =
        some (UInt8.ofNat d) := by
      rw [htoNat, bind_byte?_sub?_one (by omega)]
    rw [if_neg hne, hdepth, Option.bind_eq_bind, Option.bind_some]
    -- the slot is found by the count that is already one lower
    show (slots.at? _).bind _ = _
    rw [at?_last hle]
    rfl

end CallStack

/-! ## The layout -/

/-- The pixels as bytes, one for a lit pixel and zero for another. -/
def Display.bytes (d : Display) : Buffer UInt8 2048 :=
  d.pixels.map fun lit => if lit then 1 else 0

/-- A machine laid out in cells. -/
def Machine.board (m : Machine) : Board where
  memory := m.memory.cells
  v := m.registers.v
  index := m.index
  pc := m.pc
  delay := m.registers.delay
  sound := m.registers.sound
  slots := m.stack.slots
  depth := UInt8.ofNat m.stack.depth
  keys := m.keypad.down
  frame := m.display.bytes
  redraw := m.redraw
  awaitingKey := m.awaitingKey
  fault := m.fault
  random := m.random
  seed := m.seed
  profile := m.profile

namespace Machine

variable (m : Machine) (x : Digit)

@[simp] theorem next_board : m.board.next = m.next.board := rfl

@[simp] theorem goTo_board (pc : UInt16) : m.board.goTo pc = (m.goTo pc).board := rfl

@[simp] theorem skipIf_board (condition : Bool) :
    m.board.skipIf condition = (m.skipIf condition).board := rfl

/-! ## Registers and keys -/

@[simp] theorem register?_board : m.board.register? (Digit.toByte x) = some (m.v x) := by
  rw [Board.register?, Digit.toNat_toByte]
  exact Buffer.at?_val m.registers.v x

@[simp] theorem setRegister?_board (b : UInt8) :
    m.board.setRegister? (Digit.toByte x) b = some (m.setV x b).board := by
  rw [Board.setRegister?, Digit.toNat_toByte]
  have h : m.board.v.put? (x.val : Int) b = some (m.registers.v.put x b) :=
    Buffer.put?_val m.registers.v x b
  rw [h]
  rfl

@[simp] theorem setWide?_board (w : UInt16) :
    m.board.setWide? (Digit.toByte x) w = some (m.setV x (Word.lowByte w)).board := by
  rw [Board.setWide?, toByte_and_fifteen, toUInt8_and_lowByte, setRegister?_board]

/-- The machine with the flag set. -/
@[simp] theorem setFlag?_board (on : Bool) :
    m.board.setFlag? on =
      some (m.setV Registers.flag (if on then 1 else 0)).board :=
  setRegister?_board m Registers.flag (if on then 1 else 0)

@[simp] theorem isPressed?_board (key : UInt8) :
    m.board.isPressed? key = some (m.keypad.isPressed key) := by
  rw [Board.isPressed?, toNat_and_fifteen]
  exact Buffer.at?_val m.keypad.down (Digit.ofByte key)

theorem firstKey?_board : m.board.firstKey? = m.keypad.first?.map Digit.toByte := rfl

/-! ## Memory -/

@[simp] theorem read?_board (addr : UInt16) : m.board.read? addr = some (m.memory.read addr) := by
  rw [Board.read?, toNat_and_mask]
  exact Buffer.at?_val m.memory.cells (Address.ofWord addr)

@[simp] theorem write?_board (addr : UInt16) (b : UInt8) :
    m.board.write? addr b = some { m with memory := m.memory.write addr b }.board := by
  rw [Board.write?, toNat_and_mask]
  have h : m.board.memory.put? ((Address.ofWord addr).val : Int) b =
      some (m.memory.cells.put (Address.ofWord addr) b) :=
    Buffer.put?_val m.memory.cells (Address.ofWord addr) b
  rw [h]
  rfl

@[simp] theorem fetch?_board : m.board.fetch? = some m.fetch := by
  have hhigh := read?_board m m.pc
  have hlow := read?_board m (m.pc + 1)
  have hpc : m.board.pc = m.pc := rfl
  rw [Board.fetch?, hpc, hhigh, hlow]
  rfl

/-! ## Calls -/

theorem stack_board : m.board.stack = m.stack.cells := rfl

/-- A call finds a slot below the sixteenth, and the depth after it is a
byte. -/
@[simp] theorem call?_board (target : UInt16) :
    m.board.call? target = some ((m.call target).map board) := by
  have hpc : m.board.pc = m.pc := rfl
  rw [Board.call?, Machine.call, hpc, stack_board, CallStack.push?_cells, Option.bind_eq_bind,
    Option.bind_some]
  cases hpush : m.stack.push? (m.pc + 2) with
  | none => rw [CallStack.perform_push_of_eq_none hpush]; rfl
  | some s => rw [CallStack.perform_push_of_eq_some hpush]; rfl

/-- A return finds the last slot in use, since the depth is not zero. -/
@[simp] theorem returnFromCall?_board :
    m.board.returnFromCall? = some (m.returnFromCall.map board) := by
  have hpc : m.board.pc = m.pc := rfl
  rw [Board.returnFromCall?, Machine.returnFromCall, hpc, stack_board, CallStack.pop?_cells,
    Option.bind_eq_bind, Option.bind_some]
  cases hpop : m.stack.pop? with
  | none => rw [CallStack.perform_pop_of_eq_none hpop]; rfl
  | some p => rw [CallStack.perform_pop_of_eq_some hpop]; rfl

end Machine

/-! ## Timers and glyphs -/

@[simp] theorem countDown?_eq (timer : UInt8) :
    Board.countDown? timer = some (if 0 < timer then timer - 1 else 0) := by
  unfold Board.countDown?
  by_cases h : 0 < timer
  · have hpos : 1 ≤ timer.toNat := h
    have hlt := timer.toNat_lt
    have hless : UInt8.ofNat (timer.toNat - 1) = timer - 1 := by
      rw [UInt8.ofNat_sub hpos, UInt8.ofNat_toNat]
      rfl
    rw [if_pos h, if_pos h, sub?_of_le hpos, Option.bind_some, byte?_of_lt (by omega), hless]
  · have hzero : timer = 0 := by
      apply UInt8.toNat_inj.1
      have : ¬0 < timer.toNat := h
      show timer.toNat = 0
      omega
    rw [if_neg h, if_neg h, hzero]

/-- The glyphs of all sixteen digits lie below the end of a word. -/
@[simp] theorem glyphAddress?_eq (b : UInt8) : glyphAddress? b = some (Font.glyphAddress b) := by
  have hlt := (Digit.ofByte b).isLt
  have hplace := Font.toNat_glyphAddress b
  have hstart : Font.start.toNat = 0x50 := rfl
  rw [glyphAddress?, toNat_and_fifteen, hstart]
  rw [Font.height] at hplace ⊢
  have hpast : (UInt16.ofNat (5 * (Digit.ofByte b).val)).toNat = 5 * (Digit.ofByte b).val := by
    rw [UInt16.toNat_ofNat']
    omega
  rw [word?_of_lt (by omega), Option.bind_eq_bind, Option.bind_some, hpast,
    word?_of_lt (by omega), ← hplace, UInt16.ofNat_toNat]

end Chip8
