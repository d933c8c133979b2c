import Chip8.Instruction.Decoding
import Chip8.Machine.Cycle
import Chip8.Proofs.Listings
import Mathlib.Data.List.TakeWhile
/-!
# What a mnemonic says

The text of an instruction reads back. Its name ends at the first blank, its
operands are parted by commas that no operand has (`splitOperands_intercalate`),
and each operand is told by its first characters (`Operand.ofText?_text`); the
names and operands of an instruction then give the instruction
(`ofMnemonic?_mnemonic`). So a mnemonic stands for one instruction, and words
of one mnemonic do the same (`mnemonic_unambiguous`).
-/

namespace Chip8

/-! ## Operands -/

/-- A digit is written as one character. -/
theorem Hex.upper_digit {n : Nat} (h : n < 16) :
    (upper 1 n).toList = [(Nat.digitChar n).toUpper] := by
  rw [upper, String.toList_ofList, padded, digits, Nat.toDigits_of_lt_base h]
  rfl

namespace Operand

/-- **An operand reads back.** -/
theorem ofText?_text (o : Operand) : ofText? o.text.toList = some o := by
  cases o with
  | register x =>
    have htext : (register x).text.toList = ['V', (Nat.digitChar x.val).toUpper] := by
      rw [text, String.toList_append, Hex.upper_digit x.isLt]
      rfl
    have hdigit : Hex.digitValue? (Nat.digitChar x.val).toUpper = some x.val := by
      rw [Hex.digitValue?_toUpper _ (Hex.digitChar_mem_lowerDigits x.isLt),
        Hex.digitValue?_digitChar x.isLt]
    simp [htext, ofText?, hdigit]
  | number n =>
    have htext : (number n).text.toList = '0' :: 'x' :: (Hex.lower 1 n).toList := by
      rw [text, Hex.literal, String.toList_append]
      rfl
    simp [htext, ofText?, Hex.value?_lower]
  | _ => rfl

theorem comma_not_mem_text (o : Operand) : ',' ∉ o.text.toList :=
  fun h => (by decide : ',' ∉ alphabet) (mem_text h)

end Operand

/-! ## Assembly instructions -/

namespace Assembly

theorem operandsOf?_map_text (os : List Operand) :
    operandsOf? (os.map fun o => o.text.toList) = some os := by
  induction os with
  | nil => rfl
  | cons o os ih => simp only [List.map_cons, operandsOf?, Operand.ofText?_text, ih]

/-- **An assembly instruction reads back**, if its name has no blank. -/
theorem ofText?_text {a : Assembly} (h : ' ' ∉ a.name.toList) : ofText? a.text.toList = some a := by
  obtain ⟨name, os⟩ := a
  have hname : ∀ c ∈ name.toList, decide (c ≠ ' ') = true := fun c hc =>
    decide_eq_true fun e : c = ' ' => h (e ▸ hc)
  cases os with
  | nil =>
    have htake : name.toList.takeWhile (· ≠ ' ') = name.toList :=
      List.takeWhile_eq_self_iff.mpr hname
    have hdrop : name.toList.dropWhile (· ≠ ' ') = [] := List.dropWhile_eq_nil_iff.mpr hname
    simp only [text, ofText?, htake, hdrop, String.ofList_toList]
  | cons o os =>
    have htext : (text ⟨name, o :: os⟩).toList = name.toList ++
        ' ' :: [',', ' '].intercalate ((o :: os).map fun o => o.text.toList) := by
      simp [text, String.toList_intercalate, Function.comp_def]
    have htake : (text ⟨name, o :: os⟩).toList.takeWhile (· ≠ ' ') = name.toList := by
      rw [htext, takeWhile_ne_append h]
    have hdrop : (text ⟨name, o :: os⟩).toList.dropWhile (· ≠ ' ') =
        ' ' :: [',', ' '].intercalate ((o :: os).map fun o => o.text.toList) := by
      rw [htext, List.dropWhile_append_of_pos hname]
      rfl
    have hcomma : ∀ part ∈ (o :: os).map fun o => o.text.toList, ',' ∉ part := by
      simp [Operand.comma_not_mem_text]
    simp only [ofText?, htake, hdrop, splitOperands_intercalate hcomma (by simp),
      operandsOf?_map_text, Option.map_some, String.ofList_toList]

end Assembly

/-! ## Instructions -/

namespace Instruction

variable {w w' : UInt16} {i j : Instruction}

theorem blank_not_mem_name (i : Instruction) : ' ' ∉ i.assembly.name.toList := by
  have hall : names.all (fun s => decide (' ' ∉ s.toList)) = true := by decide
  exact of_decide_eq_true (List.all_eq_true.mp hall _ i.name_mem_names)

/-- **A mnemonic reads back.** -/
theorem ofMnemonic?_mnemonic (i : Instruction) : ofMnemonic? i.mnemonic = some i := by
  rw [ofMnemonic?, mnemonic, Assembly.ofText?_text i.blank_not_mem_name, Option.bind_some,
    ofAssembly?_assembly]

theorem mnemonic_inj : i.mnemonic = j.mnemonic ↔ i = j := by
  refine ⟨fun h => ?_, congrArg mnemonic⟩
  have hread := i.ofMnemonic?_mnemonic
  rw [h, j.ofMnemonic?_mnemonic] at hread
  exact (Option.some.inj hread).symm

end Instruction

namespace Machine

/-- The machine after a word, or the fault that the word runs into. -/
def executeWord (m : Machine) (w : UInt16) : Except Fault Machine :=
  match Instruction.decode w with
  | .ok i => m.execute i
  | .error u => .error (.decode m.pc u.word)

/-- A step executes the word at the program counter. -/
theorem step_eq_executeWord (m : Machine) : m.step = m.executeWord m.fetch := by
  rw [step, executeWord, Instruction.decode]
  cases Instruction.decode? m.fetch <;> rfl

end Machine

namespace Instruction

/-- **Mnemonics are unambiguous.** Two instructions have one text exactly when
they are one instruction; the text of any word that decodes reads back as the
instruction of that word; no text is the mark of a word that is no
instruction, or breaks a line; and words with one text do the same to every
machine, also where a step comes to one of them. -/
theorem mnemonic_unambiguous :
    (∀ i j : Instruction, i.mnemonic = j.mnemonic ↔ i = j) ∧
    (∀ (w : UInt16) (i : Instruction), decode w = .ok i → ofMnemonic? i.mnemonic = some i) ∧
    (∀ i : Instruction, i.mnemonic ≠ "???" ∧ '\n' ∉ i.mnemonic.toList) ∧
    ∀ (w w' : UInt16) (i j : Instruction), decode w = .ok i → decode w' = .ok j →
      i.mnemonic = j.mnemonic → ∀ m : Machine, m.executeWord w = m.executeWord w' ∧
        (m.fetch = w → m.step = m.executeWord w') := by
  refine ⟨fun i j => mnemonic_inj, fun w i _ => i.ofMnemonic?_mnemonic,
    fun i => ⟨i.mnemonic_ne_mark, i.newline_not_mem_mnemonic⟩, ?_⟩
  intro w w' i j hi hj h m
  obtain rfl := mnemonic_inj.mp h
  have hsame : m.executeWord w = m.executeWord w' := by
    rw [Machine.executeWord, Machine.executeWord, hi, hj]
  refine ⟨hsame, fun hw => ?_⟩
  rw [m.step_eq_executeWord, hw, hsame]

theorem mnemonic_unambiguous_lastDigit :
    let i := skipIfEqual ⟨1, by decide⟩ ⟨2, by decide⟩
    decode 0x5120 = .ok i ∧ decode 0x512F = .ok i ∧ ofMnemonic? i.mnemonic = some i ∧
      ∀ m : Machine, m.executeWord 0x5120 = m.executeWord 0x512F ∧
        (m.fetch = 0x5120 → m.step = m.executeWord 0x512F) :=
  ⟨rfl, rfl, mnemonic_unambiguous.2.1 0x5120 _ rfl,
    mnemonic_unambiguous.2.2.2 0x5120 0x512F _ _ rfl rfl rfl⟩

example : ofMnemonic? "DRW VA, VB, 0x5" =
    some (draw ⟨0xA, by decide⟩ ⟨0xB, by decide⟩ ⟨0x5, by decide⟩) := by
  decide +kernel

end Instruction

end Chip8
