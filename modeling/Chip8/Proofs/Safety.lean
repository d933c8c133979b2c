import Chip8.Proofs.Blocks
import Chip8.Proofs.Painting
/-!
# No check ever fails

Instruction by instruction and action by action, the machine in checked
cells has a result, and it is the machine's own (`execute?_board`,
`perform?_board`). So a run of actions from power-on passes every check on
the way, whatever the actions are: no position leaves its cells and no sum,
difference or product leaves its word.
-/

namespace Chip8

open Guarded

/-! ## Operands -/

namespace Instruction

variable {f : Fields} {i : Instruction}

/-- The operands of an instruction are parts of its word. -/
def TakenFrom (f : Fields) : Instruction → Prop
  | clearScreen | returnFromCall => True
  | jump target | call target | setIndex target | jumpOffset target => target = f.target
  | skipIfByte x byte | skipUnlessByte x byte | setByte x byte | addByte x byte
  | random x byte => x = f.x ∧ byte = f.byte
  | skipIfEqual x y | skipUnlessEqual x y | arithmetic _ x y => x = f.x ∧ y = f.y
  | draw x y rows => x = f.x ∧ y = f.y ∧ rows = f.n
  | skipIfKey x | skipUnlessKey x | getDelay x | awaitKey x | setDelay x | setSound x
  | addIndex x | pointGlyph x | storeDecimal x | storeBlock x | loadBlock x => x = f.x

theorem takenFrom_of_ofMiscByte? (h : ofMiscByte? f.x f.byte = some i) : i.TakenFrom f := by
  unfold ofMiscByte? at h
  split at h <;> cases h <;> rfl

theorem takenFrom_of_ofFields? (h : ofFields? f = some i) : i.TakenFrom f := by
  unfold ofFields? at h
  split at h
  case h_9 =>
    obtain ⟨op, -, rfl⟩ := Option.map_eq_some_iff.1 h
    exact ⟨rfl, rfl⟩
  case h_16 => exact takenFrom_of_ofMiscByte? h
  case h_1 | h_15 => split at h <;> cases h <;> trivial
  all_goals cases h
  all_goals simp [TakenFrom]

/-- **An instruction's operands are the parts of the word it was decoded
from.** -/
theorem takenFrom_of_decode? {w : UInt16} (h : decode? w = some i) :
    i.TakenFrom (Fields.ofWord w) :=
  takenFrom_of_ofFields? h

end Instruction

/-! ## Instructions -/

@[simp] theorem Word.lowByte_toUInt16 (b : UInt8) : Word.lowByte b.toUInt16 = b := by
  rw [lowByte, UInt8.toUInt8_toUInt16]

/-- A byte added to a word of twelve bits makes a word. -/
theorem word?_add {w : UInt16} (hw : w.toNat < 4096) (b : UInt8) :
    word? (w.toNat + b.toNat) = some (w + b.toUInt16) := by
  have hb := b.toNat_lt
  have h : UInt16.ofNat (w.toNat + b.toNat) = w + b.toUInt16 := by
    apply UInt16.toNat_inj.1
    rw [UInt16.toNat_ofNat', UInt16.toNat_add, UInt8.toNat_toUInt16]
  rw [word?_of_lt (by omega), h]

@[simp] theorem word?_toNat_add (a b : UInt8) :
    word? (a.toNat + b.toNat) = some (a.toUInt16 + b.toUInt16) := by
  have ha := a.toNat_lt
  have h := word?_add (w := a.toUInt16) (by rw [UInt8.toNat_toUInt16]; omega) b
  rwa [UInt8.toNat_toUInt16] at h

@[simp] theorem word?_val_add (target : Address) (b : UInt8) :
    word? (target.val + b.toNat) = some (Address.toWord target + b.toUInt16) := by
  have h := word?_add (w := Address.toWord target) (by rw [Address.toNat_toWord]; omega) b
  rwa [Address.toNat_toWord] at h

namespace Machine

variable (m : Machine)

/-- Arithmetic as one register written, or two. -/
theorem compute_eq (op : Arithmetic) (x y : Digit) :
    m.compute op x y =
      match op.apply m.profile (m.v x) (m.v y) with
      | (result, none) => m.setV x (Word.lowByte result)
      | (result, some on) =>
        (m.setV x (Word.lowByte result)).setV Registers.flag (if on then 1 else 0) := rfl

/-- **Arithmetic stays inside its words**: only the sum could leave them,
and two bytes make a word. -/
@[simp] theorem compute?_board (op : Arithmetic) (x y : Digit) :
    m.board.compute? op (Digit.toByte x) (Digit.toByte y) = some (m.compute op x y).board := by
  have hprofile : m.board.profile = m.profile := rfl
  have hsource : m.board.register?
      (if m.profile.shiftReadsSecond then Digit.toByte y else Digit.toByte x) =
        some (if m.profile.shiftReadsSecond then m.v y else m.v x) := by
    cases m.profile.shiftReadsSecond
    · exact register?_board m x
    · exact register?_board m y
  rw [compute_eq]
  cases op
  all_goals
    simp only [Board.compute?, Arithmetic.apply, hprofile, hsource, register?_board,
      setRegister?_board, setWide?_board, setFlag?_board, word?_toNat_add, Word.lowByte_toUInt16,
      Option.bind_eq_bind, Option.bind_some]

@[simp] theorem awaitKey?_board (x : Digit) :
    m.board.awaitKey? (Digit.toByte x) = some (m.awaitKey x).board := by
  rw [Board.awaitKey?, firstKey?_board, awaitKey]
  cases m.keypad.first? with
  | none => rfl
  | some key =>
    simp only [Option.map_some, setRegister?_board, Option.bind_eq_bind, Option.bind_some]
    rfl

@[simp] theorem setRegister?_board_random (r : Random) (x : Digit) (b : UInt8) :
    Board.setRegister? { m.board with random := r } (Digit.toByte x) b =
      some ({ m with random := r }.setV x b).board :=
  setRegister?_board { m with random := r } x b

/-- **Every instruction stays inside the cells** and does on them what it
does to the machine. -/
theorem execute?_board {i : Instruction} {f : Fields} (h : i.TakenFrom f) :
    m.board.execute? i f.operands = some ((m.execute i).map board) := by
  cases i with
  | clearScreen =>
    rw [Board.execute?, ← Display.bytes_blank]
    rfl
  | returnFromCall => exact returnFromCall?_board m
  | call target =>
    obtain rfl := h
    exact call?_board m _
  | jump target | setIndex target =>
    obtain rfl := h
    rfl
  | jumpOffset target =>
    obtain rfl := h
    have hzero : m.board.register? 0 = some (m.v Digit.zero) := register?_board m Digit.zero
    simp [Board.execute?, execute, Fields.operands, Except.map, hzero]
  | random x mask =>
    obtain ⟨rfl, rfl⟩ := h
    have hrandom : m.board.random = m.random := rfl
    simp [Board.execute?, execute, Fields.operands, Except.map, hrandom, drawRandom]
  | skipIfByte x byte | skipUnlessByte x byte | setByte x byte | addByte x byte =>
    obtain ⟨rfl, rfl⟩ := h
    simp [Board.execute?, execute, Fields.operands, Except.map]
  | skipIfEqual x y | skipUnlessEqual x y | arithmetic op x y =>
    obtain ⟨rfl, rfl⟩ := h
    simp [Board.execute?, execute, Fields.operands, Except.map]
  | draw x y rows =>
    obtain ⟨rfl, rfl, rfl⟩ := h
    simp [Board.execute?, execute, Fields.operands, Except.map]
  | skipIfKey x | skipUnlessKey x | awaitKey x | storeDecimal x | storeBlock x | loadBlock x =>
    obtain rfl := h
    simp [Board.execute?, execute, Fields.operands, Except.map]
  | getDelay x | setDelay x | setSound x | addIndex x | pointGlyph x =>
    -- the timers and the index register are read and written in place
    obtain rfl := h
    simp only [Board.execute?, Fields.operands, register?_board, setRegister?_board,
      glyphAddress?_eq, Option.bind_eq_bind, Option.bind_some]
    rfl

/-! ## Actions -/

@[simp] theorem step?_board : m.board.step? = some (m.step.map board) := by
  have hpc : m.board.pc = m.pc := rfl
  rw [Board.step?, fetch?_board, Option.bind_eq_bind, Option.bind_some, step, hpc]
  cases h : Instruction.decode? m.fetch with
  | none => rfl
  | some i =>
    -- the masks and the table read the same parts of the word
    simp only [Operands.ofWord_eq]
    exact execute?_board m (Instruction.takenFrom_of_decode? h)

@[simp] theorem cycle?_board : m.board.cycle? = some (m.cycle.1, m.cycle.2.board) := by
  have hfault : m.board.fault = m.fault := rfl
  rw [Board.cycle?, hfault]
  cases hf : m.fault with
  | some f => rw [cycle_of_fault hf]
  | none =>
    simp only [step?_board, Option.bind_eq_bind, Option.bind_some]
    cases hs : m.step with
    | ok n => rw [cycle_of_step_ok hf hs]; rfl
    | error f => rw [cycle_of_step_error hf hs]; rfl

@[simp] theorem timerPeriod?_board :
    m.board.timerPeriod? = some (m.timerPeriod.1, m.timerPeriod.2.board) := by
  simp only [Board.timerPeriod?, countDown?_eq, Option.bind_eq_bind, Option.bind_some]
  rfl

theorem reset?_eq (s : Board) : s.reset? = some (powerOn s.seed s.profile).board := by
  rw [Board.reset?, writeGlyphs?_font, Option.bind_eq_bind, Option.bind_some, Board.blank,
    ← Display.bytes_blank]
  rfl

theorem setKey?_board (key : UInt8) (down : Bool) :
    m.board.setKey? key down =
      some { m with keypad := ⟨m.keypad.down.put (Digit.ofByte key) down⟩ }.board := by
  have h : m.board.keys.put? ((Digit.ofByte key).val : Int) down =
      some (m.keypad.down.put (Digit.ofByte key) down) :=
    Buffer.put?_val m.keypad.down (Digit.ofByte key) down
  rw [Board.setKey?, toNat_and_fifteen, h]
  rfl

/-- **Every action stays inside the cells** and does on them what it does to
the machine. -/
theorem perform?_board (a : Action) :
    m.board.perform? a = some ((m.perform a).1, (m.act a).board) := by
  cases a with
  | load program =>
    rw [Board.perform?, load?_board, act, perform]
    cases m.loadProgram program <;> rfl
  | reset =>
    rw [Board.perform?, reset?_eq, act, perform, reset_eq_powerOn]
    rfl
  | cycle =>
    rw [Board.perform?, cycle?_board]
    rfl
  | timerPeriod =>
    rw [Board.perform?, timerPeriod?_board]
    rfl
  | press key =>
    rw [Board.perform?, setKey?_board]
    rfl
  | release key =>
    rw [Board.perform?, setKey?_board]
    rfl
  | setKeys keys => rfl
  | acknowledgeRedraw => rfl

/-! ## Runs -/

theorem run?_board (actions : List Action) :
    m.board.run? actions = some (m.run actions).board := by
  induction actions generalizing m with
  | nil => rfl
  | cons a actions ih =>
    rw [Board.run?, perform?_board, Option.bind_eq_bind, Option.bind_some, run_cons]
    exact ih (m.act a)

/-- **No check ever fails.** From power-on with any seed and profile, and
through any actions, the machine in checked cells goes on: it has a board
after them, laid out as the machine is, with at most sixteen calls in
progress, the slots in use inside the stack and every pixel zero or one; and
any action that comes next has a result on that board too, with the same
reply. -/
theorem run_checked (seed : UInt64) (profile : Profile) (actions : List Action) :
    let m := (powerOn seed profile).run actions
    ∃ s : Board, (Board.powerOn? seed profile).bind (fun s => s.run? actions) = some s ∧
      s = m.board ∧
      s.depth.toNat ≤ 16 ∧
      (s.slots.slice? 0 s.depth.toNat).isSome = true ∧
      (∀ i, s.frame.get i = 0 ∨ s.frame.get i = 1) ∧
      ∀ a, s.perform? a = some ((m.perform a).1, (m.act a).board) := by
  intro m
  -- a blank board is laid out as no machine: its first reset writes the font
  have hpower : Board.powerOn? seed profile = some (powerOn seed profile).board :=
    reset?_eq (Board.blank seed profile)
  have hrun : (Board.powerOn? seed profile).bind (fun s => s.run? actions) = some m.board := by
    rw [hpower, Option.bind_some]
    exact run?_board (powerOn seed profile) actions
  have hdepth : m.board.depth.toNat ≤ 16 := by
    have hcount : m.board.depth.toNat = m.stack.depth := m.stack.toNat_depth_cells
    rw [hcount]
    exact m.stack.depth_le
  have hslots : (m.board.slots.slice? 0 m.board.depth.toNat).isSome = true := by
    rw [Buffer.slice?, if_pos ⟨Nat.zero_le _, hdepth⟩]
    rfl
  exact ⟨m.board, hrun, rfl, hdepth, hslots, m.display.get_bytes_eq_zero_or_one,
    m.perform?_board⟩

/-- The checks are there: with a depth past the last slot, as no run leaves
it, a return has no board after it. -/
example :
    let s : Board := { Board.blank 0 Profile.standard with depth := 17 }
    s.returnFromCall?.isNone = true := by
  decide

end Machine

end Chip8
