import Chip8.Proofs.Footprint
import Chip8.Proofs.Safety
import Chip8.Proofs.Sprites
/-!
# Arithmetic with a flag loses nothing

A sum, a difference or a shift of bytes need not fit a byte. What does not
fit is in the flag: the byte left behind and the flag add up to the operands
(`Balances`), and one pair of a byte and a flag does so
(`Balances.unique`). The instruction puts that pair into its target and the
flag register, whichever registers its operands are; when the target is the
flag register itself, the flag is what stays
(`execute_arithmetic_balances`).
-/

namespace Chip8

open Guarded

namespace Arithmetic

variable {p : Profile} {f : Arithmetic} {a b : UInt8}

/-- The byte that a shift takes. -/
def source (p : Profile) (a b : UInt8) : UInt8 :=
  if p.shiftReadsSecond then b else a

/-- **The account of an operation**: the flag is zero or one, and with it the
byte left behind adds up to the operands. A carry and a bit shifted out to
the left weigh 256, a bit shifted out to the right weighs one, and the flag
of a difference is down when 256 had to be borrowed. -/
def Balances (p : Profile) (f : Arithmetic) (a b result flag : UInt8) : Prop :=
  (flag = 0 ∨ flag = 1) ∧
    match f with
    | add => 256 * (flag.toNat : ℤ) + result.toNat = a.toNat + b.toNat
    | subtract => (result.toNat : ℤ) + b.toNat = a.toNat + 256 * (1 - flag.toNat)
    | subtractFrom => (result.toNat : ℤ) + a.toNat = b.toNat + 256 * (1 - flag.toNat)
    | shiftRight => 2 * (result.toNat : ℤ) + flag.toNat = (source p a b).toNat
    | shiftLeft => 256 * (flag.toNat : ℤ) + result.toNat = 2 * (source p a b).toNat
    | copy | or | and | xor => False

/-- An operation has no more than one byte and one flag in its account. -/
theorem Balances.unique {r r' c c' : UInt8} (h : Balances p f a b r c)
    (h' : Balances p f a b r' c') : r = r' ∧ c = c' := by
  obtain ⟨hc, h⟩ := h
  obtain ⟨hc', h'⟩ := h'
  have hr := r.toNat_lt
  have hr' := r'.toNat_lt
  simp only [← UInt8.toNat_inj, UInt8.toNat_zero, UInt8.toNat_one] at hc hc' ⊢
  cases f <;> simp only at h h' <;> omega

/-! ## Words have room

The sum of two bytes fits a word, and so does a byte doubled. Only a
difference goes around in its word, and then its lower byte is what counts. -/

theorem toNat_apply_add : (add.apply p a b).1.toNat = a.toNat + b.toNat := by
  have ha := a.toNat_lt
  have hb := b.toNat_lt
  simp only [apply, UInt16.toNat_add, UInt8.toNat_toUInt16]
  omega

theorem toNat_apply_shiftLeft :
    (shiftLeft.apply p a b).1.toNat = 2 * (source p a b).toNat := by
  have hs := (source p a b).toNat_lt
  have h : (shiftLeft.apply p a b).1 = (source p a b).toUInt16 <<< 1 := rfl
  rw [h, UInt16.toNat_shiftLeft, UInt8.toNat_toUInt16, Nat.shiftLeft_eq]
  have hdouble : 2 ^ ((1 : UInt16).toNat % 16) = 2 := rfl
  rw [hdouble]
  omega

/-- The lower byte of a difference of bytes, in a word, is their difference
in a byte. -/
theorem toNat_lowByte_sub (a b : UInt8) :
    (Word.lowByte (a.toUInt16 - b.toUInt16)).toNat = (256 + a.toNat - b.toNat) % 256 := by
  have ha := a.toNat_lt
  have hb := b.toNat_lt
  simp only [Word.toNat_lowByte, UInt16.toNat_sub, UInt8.toNat_toUInt16]
  omega

/-- The bit shifted out to the right tells whether the byte is odd. -/
theorem and_lowBit_ne_zero_iff (s : UInt8) : s &&& 0x01 ≠ 0 ↔ s.toNat % 2 = 1 := by
  have h : s &&& 0x01 = 0 ↔ s.toNat.testBit 0 = false :=
    Display.and_shiftRight_eq_zero_iff (show 7 < 8 by decide)
  rw [Ne, h, Nat.testBit_eq_decide_div_mod_eq]
  simp

/-- The bit shifted out to the left tells whether the byte is in the upper
half. -/
theorem and_highBit_ne_zero_iff (s : UInt8) : s &&& 0x80 ≠ 0 ↔ 128 ≤ s.toNat := by
  have hs := s.toNat_lt
  have h : s &&& 0x80 = 0 ↔ s.toNat.testBit 7 = false :=
    Display.and_shiftRight_eq_zero_iff (show 0 < 8 by decide)
  rw [Ne, h, Nat.testBit_eq_decide_div_mod_eq, decide_eq_false_iff_not]
  omega

/-- The flag as a number, for a test that tells whether something holds of
the operands. -/
theorem toNat_flag {on : Bool} {c : Prop} [Decidable c] (h : on = true ↔ c) :
    (if on then 1 else 0 : UInt8).toNat = if c then 1 else 0 := by
  simp only [h]
  split <;> rfl

/-- A bit put into the flag is zero or one. -/
theorem flag_eq_zero_or_one (on : Bool) :
    (if on then 1 else 0 : UInt8) = 0 ∨ (if on then 1 else 0 : UInt8) = 1 := by
  cases on <;> decide

/-! ## The accounts -/

theorem balances_add (p : Profile) (a b : UInt8) :
    Balances p add a b (Word.lowByte (a.toUInt16 + b.toUInt16))
      (if decide (0xFF < a.toUInt16 + b.toUInt16) then 1 else 0) := by
  refine ⟨flag_eq_zero_or_one _, ?_⟩
  have ha := a.toNat_lt
  have hb := b.toNat_lt
  have hsum : (a.toUInt16 + b.toUInt16).toNat = a.toNat + b.toNat := toNat_apply_add (p := p)
  have hcarry : decide (0xFF < a.toUInt16 + b.toUInt16) = true ↔ 255 < a.toNat + b.toNat := by
    rw [decide_eq_true_eq, UInt16.lt_iff_toNat_lt, hsum]
    rfl
  simp only [toNat_flag hcarry, Word.toNat_lowByte, hsum]
  split <;> omega

/-- The other difference is this one with the operands exchanged. -/
theorem balances_subtract (p : Profile) (a b : UInt8) :
    Balances p subtract a b (Word.lowByte (a.toUInt16 - b.toUInt16))
      (if decide (b ≤ a) then 1 else 0) := by
  refine ⟨flag_eq_zero_or_one _, ?_⟩
  have ha := a.toNat_lt
  have hb := b.toNat_lt
  have hborrow : decide (b ≤ a) = true ↔ b.toNat ≤ a.toNat := by
    rw [decide_eq_true_eq, UInt8.le_iff_toNat_le]
  simp only [toNat_flag hborrow, toNat_lowByte_sub]
  split <;> omega

theorem balances_shiftRight (p : Profile) (a b : UInt8) :
    Balances p shiftRight a b (Word.lowByte (source p a b >>> 1).toUInt16)
      (if decide (source p a b &&& 0x01 ≠ 0) then 1 else 0) := by
  refine ⟨flag_eq_zero_or_one _, ?_⟩
  have hhalf : (source p a b >>> 1).toNat = (source p a b).toNat / 2 := by
    rw [UInt8.toNat_shiftRight, Nat.shiftRight_eq_div_pow]
    rfl
  have hodd : decide (source p a b &&& 0x01 ≠ 0) = true ↔ (source p a b).toNat % 2 = 1 := by
    rw [decide_eq_true_eq, and_lowBit_ne_zero_iff]
  simp only [toNat_flag hodd, Word.lowByte_toUInt16, hhalf]
  split <;> omega

theorem balances_shiftLeft (p : Profile) (a b : UInt8) :
    Balances p shiftLeft a b (Word.lowByte ((source p a b).toUInt16 <<< 1))
      (if decide (source p a b &&& 0x80 ≠ 0) then 1 else 0) := by
  refine ⟨flag_eq_zero_or_one _, ?_⟩
  have hs := (source p a b).toNat_lt
  have hdouble : ((source p a b).toUInt16 <<< 1).toNat = 2 * (source p a b).toNat :=
    toNat_apply_shiftLeft
  have hupper : decide (source p a b &&& 0x80 ≠ 0) = true ↔ 128 ≤ (source p a b).toNat := by
    rw [decide_eq_true_eq, and_highBit_ne_zero_iff]
  simp only [toNat_flag hupper, Word.toNat_lowByte, hdouble]
  split <;> omega

/-- **What an operation gives accounts for what it took.** -/
theorem exists_apply_balances (h : f.writesFlag = true) :
    ∃ wide on, f.apply p a b = (wide, some on) ∧
      Balances p f a b (Word.lowByte wide) (if on then 1 else 0) := by
  cases f with
  | copy | or | and | xor => cases h
  | add => exact ⟨_, _, rfl, balances_add p a b⟩
  | subtract => exact ⟨_, _, rfl, balances_subtract p a b⟩
  | subtractFrom => exact ⟨_, _, rfl, balances_subtract p b a⟩
  | shiftRight => exact ⟨_, _, rfl, balances_shiftRight p a b⟩
  | shiftLeft => exact ⟨_, _, rfl, balances_shiftLeft p a b⟩

end Arithmetic

/-- The word of an operation between two registers stands for it. -/
theorem Instruction.decode?_encode_arithmetic (f : Arithmetic) (x y : Digit) :
    decode? (encode (.arithmetic f x y)) = some (.arithmetic f x y) := by
  have hcode : f.code < 16 := by cases f <;> decide
  obtain ⟨hf, hx, hy, hn⟩ := Fields.ofWord_wordOfDigits ⟨0x8, by decide⟩ x y ⟨f.code, hcode⟩
  have e : encode (.arithmetic f x y) =
      wordOfDigits (⟨0x8, by decide⟩ : Digit).val x y (⟨f.code, hcode⟩ : Digit).val := rfl
  rw [decode?, e, ofFields?, hf, hx, hy, hn]
  simp only [Arithmetic.ofCode?_code, Option.map_some]

namespace Machine

open Arithmetic

/-- A register after arithmetic with a flag: the flag was written last. -/
theorem v_compute {m : Machine} {f : Arithmetic} {x y : Digit} {wide : UInt16} {on : Bool}
    (h : f.apply m.profile (m.v x) (m.v y) = (wide, some on)) (r : Digit) :
    (m.compute f x y).v r =
      if r = Registers.flag then (if on then 1 else 0)
      else if r = x then Word.lowByte wide else m.v r := by
  have hcompute : m.compute f x y =
      (m.setV x (Word.lowByte wide)).setV Registers.flag (if on then 1 else 0) := by
    rw [compute_eq, h]
  rw [hcompute]
  simp only [v, setV, Registers.v_set, eq_comm (b := r)]

/-- **Arithmetic with a flag loses nothing, whichever registers it is
between.** The word `8XYN` of a sum, a difference or a shift is carried out
on every machine. One byte and one flag account for the bytes that the two
registers held before. The flag register holds the flag afterwards, also
when it is the target or an operand, the target holds the byte unless it is
the flag register, and no other register has changed but the program
counter, which has moved on by one word. The sum and the doubled byte are
inside their words, and no check on the way fails, where only differences
may wrap around. -/
theorem execute_arithmetic_balances (m : Machine) {f : Arithmetic} (hf : f.writesFlag = true)
    (x y : Digit) :
    Instruction.decode? (Instruction.wordOfDigits 0x8 x y f.code) = some (.arithmetic f x y) ∧
    ∃ n result flag, m.execute (.arithmetic f x y) = .ok n ∧
      Balances m.profile f (m.v x) (m.v y) result flag ∧
      (∀ result' flag', Balances m.profile f (m.v x) (m.v y) result' flag' →
        result' = result ∧ flag' = flag) ∧
      n.v Registers.flag = flag ∧
      (x ≠ Registers.flag → n.v x = result) ∧
      (∀ r, r ≠ x → r ≠ Registers.flag → n.v r = m.v r) ∧
      n.registers = { m.registers with v := n.registers.v, pc := m.pc + 2 } ∧
      (f = add → (f.apply m.profile (m.v x) (m.v y)).1.toNat = (m.v x).toNat + (m.v y).toNat) ∧
      (f = shiftLeft → (f.apply m.profile (m.v x) (m.v y)).1.toNat =
        2 * (source m.profile (m.v x) (m.v y)).toNat) ∧
      (m.board.compute? f (Digit.toByte x) (Digit.toByte y)).map Board.next = some n.board := by
  obtain ⟨wide, on, happly, hbalances⟩ :=
    exists_apply_balances (p := m.profile) (a := m.v x) (b := m.v y) hf
  have hv := v_compute happly
  refine ⟨Instruction.decode?_encode_arithmetic f x y, (m.compute f x y).next, _, _, rfl,
    hbalances, fun _ _ h => h.unique hbalances, ?_, ?_, ?_, ?_, ?_, ?_, ?_⟩
  · exact (hv Registers.flag).trans (if_pos rfl)
  · exact fun hx => (hv x).trans ((if_neg hx).trans (if_pos rfl))
  · exact fun r hx hr => (hv r).trans ((if_neg hr).trans (if_neg hx))
  · obtain ⟨v, hcompute⟩ := m.compute_eq_withV f x y
    rw [hcompute]
    rfl
  · rintro rfl
    exact toNat_apply_add
  · rintro rfl
    exact toNat_apply_shiftLeft
  · rw [compute?_board, Option.map_some]
    rfl

/-- A machine whose shifts take the second register, with 129 in the flag
register. -/
def flagAtWork : Machine :=
  { powerOn 0 Profile.vip with
    registers := { Registers.initial with v := Buffer.blank.put Registers.flag 0x81 } }

/-- The flag register added to itself holds the carry of 258 and not 2. The
flag register shifted to the left into another one leaves 2 there and the
bit that went out in place of its own 129. -/
theorem execute_arithmetic_balances_flagAtWork :
    let m := flagAtWork
    (∃ n, m.execute (.arithmetic .add 0xF 0xF) = .ok n ∧ n.v 0xF = 1) ∧
    ∃ n, m.execute (.arithmetic .shiftLeft 0x2 0xF) = .ok n ∧ n.v 0x2 = 2 ∧ n.v 0xF = 1 ∧
      n.v 0x3 = m.v 0x3 := by
  intro m
  obtain ⟨hsum, hshift, hflag⟩ : Balances m.profile add (m.v 0xF) (m.v 0xF) 2 1 ∧
      Balances m.profile shiftLeft (m.v 0x2) (m.v 0xF) 2 1 ∧ Registers.flag = 0xF := by
    refine ⟨⟨.inr rfl, ?_⟩, ⟨.inr rfl, ?_⟩, ?_⟩ <;> decide
  obtain ⟨-, n, r, c, hadd, -, hr, hn, -⟩ :=
    execute_arithmetic_balances m (f := add) rfl 0xF 0xF
  obtain ⟨-, n', r', c', hleft, -, hr', hn', hx, hothers, -⟩ :=
    execute_arithmetic_balances m (f := shiftLeft) rfl 0x2 0xF
  rw [hflag] at hn hn' hx hothers
  refine ⟨⟨n, hadd, ?_⟩, n', hleft, ?_, ?_, hothers 0x3 (by decide) (by decide)⟩
  · exact hn.trans (hr 2 1 hsum).2.symm
  · exact (hx (by decide)).trans (hr' 2 1 hshift).1.symm
  · exact hn'.trans (hr' 2 1 hshift).2.symm

end Machine

end Chip8
