import Chip8.Instruction.Decoding
import Chip8.Proofs.Carries
import Chip8.Proofs.ControlFlow
/-!
# The words of an instruction

An instruction has one word written for it, and that word decodes to it
(`decode?_encode`). Any other word that decodes to it has the same digits
where its form looks (`agreeOutside_encode`), and the digits elsewhere do not
count (`decode?_congr`). So the words that decode are exactly those that
agree with the word of some instruction outside its ignored digits, and every
other word is given back (`decode_inverts_encode`).
-/

namespace Chip8

/-! ## Digits -/

namespace Word

variable {w w' : UInt16} {ignored : List Nat}

theorem AgreeOutside.refl (ignored : List Nat) (w : UInt16) : AgreeOutside ignored w w :=
  fun _ _ _ => rfl

theorem AgreeOutside.symm (h : AgreeOutside ignored w w') : AgreeOutside ignored w' w :=
  fun place hp hi => (h place hp hi).symm

theorem val_digit (w : UInt16) (place : Nat) : (digit w place).val = w.toNat / place % 16 := rfl

/-- The digit at each place. -/
theorem agreeOutside_iff : AgreeOutside ignored w w' ↔
    (4096 ∉ ignored → digit w 4096 = digit w' 4096) ∧
    (256 ∉ ignored → digit w 256 = digit w' 256) ∧
    (16 ∉ ignored → digit w 16 = digit w' 16) ∧ (1 ∉ ignored → digit w 1 = digit w' 1) := by
  simp [AgreeOutside, places]

theorem agreeOutside_nil_iff : AgreeOutside [] w w' ↔ w = w' := by
  have hw := w.toNat_lt
  have hw' := w'.toNat_lt
  simp only [agreeOutside_iff, List.not_mem_nil, not_false_eq_true, forall_const, Fin.ext_iff,
    val_digit, ← UInt16.toNat_inj]
  omega

theorem agreeOutside_second_iff : AgreeOutside [256] w w' ↔
    digit w 4096 = digit w' 4096 ∧ lowByte w = lowByte w' := by
  simp only [agreeOutside_iff, List.mem_singleton, Nat.reduceEqDiff, not_false_eq_true,
    not_true_eq_false, forall_const, IsEmpty.forall_iff, true_and, Fin.ext_iff, val_digit,
    ← UInt8.toNat_inj, toNat_lowByte]
  omega

theorem agreeOutside_last_iff : AgreeOutside [1] w w' ↔
    digit w 4096 = digit w' 4096 ∧ digit w 256 = digit w' 256 ∧ digit w 16 = digit w' 16 := by
  simp [AgreeOutside, places]

end Word

/-! ## Operands -/

/-- Operands that name registers, counts of rows and addresses. -/
structure Guarded.Operands.InRange (o : Guarded.Operands) : Prop where
  x : o.x.toNat < 16
  y : o.y.toNat < 16
  n : o.n.toNat < 16
  target : o.target.toNat < 4096

theorem Fields.inRange_operands (f : Fields) : f.operands.InRange where
  x := by simp [operands]
  y := by simp [operands]
  n := by simp [operands]
  target := by simp [operands]

/-! ## Words that are written -/

namespace Instruction

variable {w w' : UInt16} {i : Instruction}

theorem toNat_wordOfDigits {family last : Nat} (hf : family < 16) (x y : Digit) (hl : last < 16) :
    (wordOfDigits family x y last).toNat = family * 4096 + x.val * 256 + y.val * 16 + last := by
  rw [wordOfDigits, UInt16.toNat_ofNat']
  omega

theorem toNat_wordOfByte {family : Nat} (hf : family < 16) (x : Digit) (byte : UInt8) :
    (wordOfByte family x byte).toNat = family * 4096 + x.val * 256 + byte.toNat := by
  have hb := byte.toNat_lt
  rw [wordOfByte, UInt16.toNat_ofNat']
  omega

theorem toNat_wordOfTarget {family : Nat} (hf : family < 16) (target : Address) :
    (wordOfTarget family target).toNat = family * 4096 + target.val := by
  rw [wordOfTarget, UInt16.toNat_ofNat']
  omega

/-- The parts of a word that is written with two registers and a digit. -/
theorem ofWord_wordOfDigits {family last : Nat} (x y : Digit) (hf : family < 16) (hl : last < 16) :
    let f := Fields.ofWord (wordOfDigits family x y last)
    f.family.val = family ∧ f.x = x ∧ f.y = y ∧ f.n.val = last := by
  obtain ⟨hfamily, hx, hy, hn⟩ := Fields.ofWord_wordOfDigits ⟨family, hf⟩ x y ⟨last, hl⟩
  exact ⟨congrArg Fin.val hfamily, hx, hy, congrArg Fin.val hn⟩

/-- The parts of a word that is written with a register and a byte. -/
theorem ofWord_wordOfByte {family : Nat} (x : Digit) (byte : UInt8) (hf : family < 16) :
    let f := Fields.ofWord (wordOfByte family x byte)
    f.family.val = family ∧ f.x = x ∧ f.byte = byte := by
  have hw := toNat_wordOfByte hf x byte
  have hb := byte.toNat_lt
  simp only [Fields.ofWord, Fin.ext_iff, Word.val_digit, ← UInt8.toNat_inj, Word.toNat_lowByte, hw]
  omega

/-- The parts of a word that is written with an address. -/
theorem ofWord_wordOfTarget {family : Nat} (target : Address) (hf : family < 16) :
    let f := Fields.ofWord (wordOfTarget family target)
    f.family.val = family ∧ f.target = target := by
  have hw := toNat_wordOfTarget hf target
  simp only [Fields.ofWord, Fin.ext_iff, Word.val_digit, Address.val_ofWord, hw]
  omega

/-- **The word of an instruction decodes to it.** -/
theorem decode?_encode (i : Instruction) : decode? i.encode = some i := by
  cases i with
  | clearScreen | returnFromCall => rfl
  | arithmetic f x y => exact decode?_encode_arithmetic f x y
  | draw x y rows => exact decode?_encode_draw x y rows
  | skipIfEqual x y | skipUnlessEqual x y =>
    simp (disch := decide) only [decode?, ofFields?, encode, ofWord_wordOfDigits]
  | jump target | call target | setIndex target | jumpOffset target =>
    simp (disch := decide) only [decode?, ofFields?, encode, ofWord_wordOfTarget]
  | skipIfByte x byte | skipUnlessByte x byte | setByte x byte | addByte x byte
  | random x byte =>
    simp (disch := decide) only [decode?, ofFields?, encode, ofWord_wordOfByte]
  | skipIfKey x | skipUnlessKey x | getDelay x | awaitKey x | setDelay x | setSound x
  | addIndex x | pointGlyph x | storeDecimal x | storeBlock x | loadBlock x =>
    simp (disch := decide) only [decode?, ofFields?, encode, ofWord_wordOfByte]
    rfl

/-! ## Words that are read -/

/-- The last digit of an operation between two registers is its code. -/
theorem code_of_decode? {f : Arithmetic} {x y : Digit}
    (h : decode? w = some (arithmetic f x y)) : (Fields.ofWord w).n.val = f.code := by
  have hfamily := (form_of_ofFields? h).1
  simp only [decode?, ofFields?, hfamily, family] at h
  obtain ⟨op, hop, hi⟩ := Option.map_eq_some_iff.1 h
  cases hi
  exact (Arithmetic.code_of_ofCode? hop).symm

section

variable {family : Nat} (h : w.toNat / 4096 = family)
include h

theorem wordOfDigits_ofWord : wordOfDigits family (Fields.ofWord w).x (Fields.ofWord w).y
    (Fields.ofWord w).n.val = w := by
  have hw := w.toNat_lt
  apply UInt16.toNat_inj.mp
  rw [toNat_wordOfDigits (by omega) _ _ (Fin.isLt _)]
  simp only [Fields.ofWord, Word.val_digit]
  omega

theorem wordOfByte_ofWord {byte : UInt8} (hb : w.toNat % 256 = byte.toNat) :
    wordOfByte family (Fields.ofWord w).x byte = w := by
  have hw := w.toNat_lt
  apply UInt16.toNat_inj.mp
  rw [toNat_wordOfByte (by omega)]
  simp only [Fields.ofWord, Word.val_digit]
  omega

theorem wordOfTarget_ofWord : wordOfTarget family (Fields.ofWord w).target = w := by
  have hw := w.toNat_lt
  apply UInt16.toNat_inj.mp
  rw [toNat_wordOfTarget (by omega)]
  simp only [Fields.ofWord, Address.val_ofWord]
  omega

end

/-- A word with no digit to ignore is the word of its instruction. -/
theorem encode_of_decode? (h : decode? w = some i) (hi : i.ignoredPlaces = []) : i.encode = w := by
  obtain ⟨hfamily, hbyte⟩ := form_of_decode? h
  have htaken := takenFrom_of_decode? h
  cases i with
  | clearScreen | returnFromCall | skipIfEqual x y | skipUnlessEqual x y => cases hi
  | jump target | call target | setIndex target | jumpOffset target =>
    obtain rfl := htaken
    exact wordOfTarget_ofWord hfamily
  | skipIfByte x byte | skipUnlessByte x byte | setByte x byte | addByte x byte
  | random x byte =>
    obtain ⟨rfl, rfl⟩ := htaken
    exact wordOfByte_ofWord hfamily (Word.toNat_lowByte w).symm
  | arithmetic f x y =>
    obtain ⟨rfl, rfl⟩ := htaken
    rw [encode, ← code_of_decode? h]
    exact wordOfDigits_ofWord hfamily
  | draw x y rows =>
    obtain ⟨rfl, rfl, rfl⟩ := htaken
    exact wordOfDigits_ofWord hfamily
  | skipIfKey x | skipUnlessKey x | getDelay x | awaitKey x | setDelay x | setSound x
  | addIndex x | pointGlyph x | storeDecimal x | storeBlock x | loadBlock x =>
    obtain rfl := htaken
    exact wordOfByte_ofWord hfamily (hbyte _ rfl)

/-- **Words of one instruction have the same digits** wherever its form
looks. -/
theorem agreeOutside_of_decode? (h : decode? w = some i) (h' : decode? w' = some i) :
    Word.AgreeOutside i.ignoredPlaces w w' := by
  obtain ⟨hfamily, hbyte⟩ := form_of_decode? h
  obtain ⟨hfamily', hbyte'⟩ := form_of_decode? h'
  have hfirst : Word.digit w 4096 = Word.digit w' 4096 := by
    rw [Fin.ext_iff, Word.val_digit, Word.val_digit, hfamily, hfamily']
  cases i with
  | clearScreen | returnFromCall =>
    have hlow : Word.lowByte w = Word.lowByte w' := by
      rw [← UInt8.toNat_inj, Word.toNat_lowByte, Word.toNat_lowByte, hbyte _ rfl, hbyte' _ rfl]
    exact Word.agreeOutside_second_iff.mpr ⟨hfirst, hlow⟩
  | skipIfEqual x y | skipUnlessEqual x y =>
    obtain ⟨hx, hy⟩ := takenFrom_of_decode? h
    obtain ⟨hx', hy'⟩ := takenFrom_of_decode? h'
    exact Word.agreeOutside_last_iff.mpr ⟨hfirst, hx.symm.trans hx', hy.symm.trans hy'⟩
  | _ =>
    rw [← encode_of_decode? h rfl, ← encode_of_decode? h' rfl]
    exact Word.AgreeOutside.refl _ _

/-- **The digits that a form does not look at do not count.** -/
theorem decode?_congr (h : Word.AgreeOutside i.ignoredPlaces w w') (hi : decode? w = some i) :
    decode? w' = some i := by
  obtain ⟨hfamily, hbyte⟩ : (Word.digit w 4096).val = i.family ∧
      ∀ b ∈ i.fixedByte?, (Word.lowByte w).toNat = b := form_of_ofFields? hi
  cases i with
  | clearScreen | returnFromCall =>
    obtain ⟨hfirst, hlow⟩ := Word.agreeOutside_second_iff.mp h
    have hlast := hbyte _ rfl
    rw [hfirst] at hfamily
    rw [hlow] at hlast
    simp only [decode?, ofFields?, Fields.ofWord, hfamily, family, hlast]
  | skipIfEqual x y | skipUnlessEqual x y =>
    obtain ⟨hfirst, hx, hy⟩ := Word.agreeOutside_last_iff.mp h
    obtain ⟨rfl, rfl⟩ := takenFrom_of_decode? hi
    rw [hfirst] at hfamily
    simp only [decode?, ofFields?, Fields.ofWord, hfamily, family, hx, hy]
  | _ => exact Word.agreeOutside_nil_iff.mp h ▸ hi

/-- **The words of an instruction** are those that have the digits of any one
of them wherever its form looks. -/
theorem decode?_iff_agreeOutside (h : decode? w = some i) :
    decode? w' = some i ↔ Word.AgreeOutside i.ignoredPlaces w w' :=
  ⟨fun h' => agreeOutside_of_decode? h h', fun h' => decode?_congr h' h⟩

theorem decode_eq_ok_iff_agreeOutside :
    decode w = .ok i ↔ Word.AgreeOutside i.ignoredPlaces w i.encode := by
  rw [decode_eq_ok_iff, decode?_iff_agreeOutside i.decode?_encode]
  exact ⟨Word.AgreeOutside.symm, Word.AgreeOutside.symm⟩

/-- **The decoder accepts exactly the instruction table.** The word of an
instruction decodes to it. A word decodes to an instruction exactly when it
has the digits of that instruction's word outside those that the form
ignores, and then the operands that masks and shifts cut out of it are in
range and are those of the instruction. Every other word is given back as an
error. So the words of one instruction are those that agree outside the
ignored digits. -/
theorem decode_inverts_encode (w : UInt16) :
    (∀ i : Instruction, decode i.encode = .ok i) ∧
    (∀ i : Instruction, decode w = .ok i ↔ Word.AgreeOutside i.ignoredPlaces w i.encode) ∧
    (∀ i : Instruction, decode w = .ok i →
      (Guarded.Operands.ofWord w).InRange ∧
      Guarded.Operands.ofWord w = (Fields.ofWord w).operands ∧
      i.TakenFrom (Fields.ofWord w)) ∧
    ((∀ i : Instruction, ¬ Word.AgreeOutside i.ignoredPlaces w i.encode) ↔
      decode w = .error ⟨w⟩) ∧
    ∀ (i : Instruction) (w' : UInt16), decode w = .ok i →
      (decode w' = .ok i ↔ Word.AgreeOutside i.ignoredPlaces w w') := by
  refine ⟨fun i => decode_eq_ok_iff.mpr i.decode?_encode,
    fun i => decode_eq_ok_iff_agreeOutside, fun i hi => ⟨?_, Operands.ofWord_eq w, ?_⟩, ?_,
    fun i w' hi => ?_⟩
  · rw [Operands.ofWord_eq]
    exact Fields.inRange_operands _
  · exact takenFrom_of_decode? (decode_eq_ok_iff.mp hi)
  · simp only [← decode_eq_ok_iff_agreeOutside, decode_eq_ok_iff, decode_eq_error_iff, and_true]
    exact Option.eq_none_iff_forall_ne_some.symm
  · rw [decode_eq_ok_iff] at hi ⊢
    exact decode?_iff_agreeOutside hi

theorem decode_inverts_encode_lastDigit :
    decode 0x512F = .ok (skipIfEqual ⟨1, by decide⟩ ⟨2, by decide⟩) ∧
      (decode 0x5120 = .ok (skipIfEqual ⟨1, by decide⟩ ⟨2, by decide⟩) ↔
        Word.AgreeOutside [1] 0x512F 0x5120) :=
  ⟨rfl, (decode_inverts_encode 0x512F).2.2.2.2 _ 0x5120 rfl⟩

/-- The arithmetic family leaves digits without an operation. -/
example : decode 0x8128 = .error ⟨0x8128⟩ := rfl

end Instruction

end Chip8
