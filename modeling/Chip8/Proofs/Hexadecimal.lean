import Chip8.Text
/-!
# What hexadecimal text says

A number is written in hexadecimal digits and nothing else, and the value
of what is written is the number again, at every width and in either case
(`value?_lower`, `says_upper`). The last digit comes off a padded number
as its remainder by sixteen (`padded_succ`), which is how the digits of a
word split into those of its two bytes (`upper_word`).
-/

namespace Chip8

namespace Hex

/-! ## One digit -/

/-- A property of the characters of a list, checked one after the other. -/
theorem forall_mem_of_all {p : Char → Prop} [DecidablePred p] {cs : List Char}
    (h : cs.all (fun c => decide (p c)) = true) : ∀ c ∈ cs, p c := by
  simpa using h

/-- The digits of text in lower case. -/
def lowerDigits : List Char :=
  "0123456789abcdef".toList

/-- The digits of text in upper case. -/
def upperDigits : List Char :=
  "0123456789ABCDEF".toList

theorem digitChar_mem_lowerDigits {d : Nat} (h : d < 16) : Nat.digitChar d ∈ lowerDigits :=
  (by decide : ∀ d : Fin 16, Nat.digitChar d.val ∈ lowerDigits) ⟨d, h⟩

theorem toUpper_mem_upperDigits : ∀ c ∈ lowerDigits, c.toUpper ∈ upperDigits :=
  forall_mem_of_all (by decide)

theorem digitValue?_digitChar {d : Nat} (h : d < 16) :
    digitValue? (Nat.digitChar d) = some d :=
  (by decide : ∀ d : Fin 16, digitValue? (Nat.digitChar d.val) = some d.val) ⟨d, h⟩

/-- The case of a digit does not matter to its value. -/
theorem digitValue?_toUpper : ∀ c ∈ lowerDigits, digitValue? c.toUpper = digitValue? c :=
  forall_mem_of_all (by decide)

/-! ## All digits of a number -/

/-- **The last digit comes off.** A number is its sixteenth part followed by
the remainder, from a width of two digits on. -/
theorem padded_succ (width n : Nat) :
    padded (width + 2) n = padded (width + 1) (n / 16) ++ [Nat.digitChar (n % 16)] := by
  simp only [padded, digits]
  rcases Nat.lt_or_ge n 16 with h | h
  · -- A number of one digit: the sixteenth part is nothing but padding.
    rw [Nat.toDigits_of_lt_base h, Nat.div_eq_of_lt h, Nat.mod_eq_of_lt h, Nat.toDigits_zero]
    simp [List.leftpad, List.replicate_succ']
  · rw [Nat.toDigits_of_base_le (by decide) h]
    simp [List.leftpad]

theorem mem_digits {n : Nat} {c : Char} (h : c ∈ digits n) : c ∈ lowerDigits := by
  induction n using Nat.strongRecOn with
  | _ n ih =>
    rw [digits, Nat.toDigits_eq_if (by decide)] at h
    split at h
    · rw [List.mem_singleton.mp h]
      exact digitChar_mem_lowerDigits ‹_›
    · rcases List.mem_append.mp h with h | h
      · exact ih (n / 16) (by omega) h
      · rw [List.mem_singleton.mp h]
        exact digitChar_mem_lowerDigits (Nat.mod_lt _ (by decide))

theorem mem_padded {width n : Nat} {c : Char} (h : c ∈ padded width n) : c ∈ lowerDigits := by
  simp only [padded, List.leftpad, List.mem_append, List.mem_replicate] at h
  rcases h with ⟨-, rfl⟩ | h
  · decide
  · exact mem_digits h

theorem mem_lower {width n : Nat} {c : Char} (h : c ∈ (lower width n).toList) :
    c ∈ lowerDigits := by
  rw [lower, String.toList_ofList] at h
  exact mem_padded h

theorem mem_upper {width n : Nat} {c : Char} (h : c ∈ (upper width n).toList) :
    c ∈ upperDigits := by
  rw [upper, String.toList_ofList, List.mem_map] at h
  obtain ⟨d, hd, rfl⟩ := h
  exact toUpper_mem_upperDigits d (mem_padded hd)

/-- A literal has the `x` of its mark besides digits. -/
theorem mem_literal {width n : Nat} {c : Char} (h : c ∈ (literal width n).toList) :
    c ∈ 'x' :: lowerDigits := by
  have hmark : ∀ c ∈ "0x".toList, c ∈ 'x' :: lowerDigits := forall_mem_of_all (by decide)
  rw [literal, String.toList_append, List.mem_append] at h
  rcases h with h | h
  · exact hmark c h
  · exact List.mem_cons_of_mem _ (mem_lower h)

/-! ## Bytes and words -/

theorem upper_byte {n : Nat} (h : n < 256) :
    (upper 2 n).toList =
      [(Nat.digitChar (n / 16)).toUpper, (Nat.digitChar (n % 16)).toUpper] := by
  have hn : n / 16 < 16 := by omega
  rw [upper, String.toList_ofList, padded_succ, padded, digits, Nat.toDigits_of_lt_base hn]
  rfl

/-- The digits of a word are those of its high and of its low byte. -/
theorem upper_word {low : Nat} (high : Nat) (hl : low < 256) :
    upper 4 (256 * high + low) = upper 2 high ++ upper 2 low := by
  apply String.toList_injective
  have hhigh : (256 * high + low) / 16 / 16 = high := by omega
  have hlow : (256 * high + low) / 16 % 16 = low / 16 := by omega
  have hlast : (256 * high + low) % 16 = low % 16 := by omega
  rw [String.toList_append, upper_byte hl, upper, upper, String.toList_ofList,
    String.toList_ofList, padded_succ, padded_succ, hhigh, hlow, hlast, List.map_append,
    List.map_append, List.append_assoc]
  rfl

/-! ## Values -/

theorem valueFrom?_append (n : Nat) (cs ds : List Char) :
    valueFrom? n (cs ++ ds) = (valueFrom? n cs).bind fun n => valueFrom? n ds := by
  induction cs generalizing n with
  | nil => rfl
  | cons c cs ih =>
    simp only [List.cons_append, valueFrom?, Option.bind_assoc]
    exact congrArg _ (funext fun d => ih (16 * n + d))

theorem valueFrom?_replicate_zero (k : Nat) : valueFrom? 0 (List.replicate k '0') = some 0 := by
  induction k with
  | zero => rfl
  | succ k ih =>
    rw [List.replicate_succ, valueFrom?, (by decide : digitValue? '0' = some 0)]
    exact ih

theorem valueFrom?_digits (n : Nat) : valueFrom? 0 (digits n) = some n := by
  induction n using Nat.strongRecOn with
  | _ n ih =>
    rw [digits, Nat.toDigits_eq_if (by decide)]
    split
    next h => simp [valueFrom?, digitValue?_digitChar h]
    next h =>
      have hi : valueFrom? 0 (Nat.toDigits 16 (n / 16)) = some (n / 16) := ih _ (by omega)
      have hd := digitValue?_digitChar (Nat.mod_lt n (by decide : 16 > 0))
      simp only [valueFrom?_append, hi, Option.bind_some, valueFrom?, hd, Option.some.injEq]
      omega

theorem valueFrom?_padded (width n : Nat) : valueFrom? 0 (padded width n) = some n := by
  rw [padded, List.leftpad, valueFrom?_append, valueFrom?_replicate_zero]
  exact valueFrom?_digits n

/-- Digits in upper case have the value that they have in lower case. -/
theorem valueFrom?_map_toUpper (n : Nat) {cs : List Char} (h : ∀ c ∈ cs, c ∈ lowerDigits) :
    valueFrom? n (cs.map Char.toUpper) = valueFrom? n cs := by
  induction cs generalizing n with
  | nil => rfl
  | cons c cs ih =>
    rw [List.map_cons, valueFrom?, valueFrom?, digitValue?_toUpper c (h c List.mem_cons_self)]
    exact congrArg _ (funext fun d => ih _ fun e he => h e (List.mem_cons_of_mem c he))

theorem value?_of_ne_nil {cs : List Char} (h : cs ≠ []) : value? cs = valueFrom? 0 cs := by
  cases cs with
  | nil => exact absurd rfl h
  | cons c cs => rfl

theorem padded_ne_nil (width n : Nat) : padded width n ≠ [] :=
  List.append_ne_nil_of_right_ne_nil _ Nat.toDigits_ne_nil

/-- **What is written in lower case reads back.** -/
theorem value?_lower (width n : Nat) : value? (lower width n).toList = some n := by
  rw [lower, String.toList_ofList, value?_of_ne_nil (padded_ne_nil width n), valueFrom?_padded]

/-- **What is written in upper case reads back.** -/
theorem value?_upper (width n : Nat) : value? (upper width n).toList = some n := by
  have hne : (padded width n).map Char.toUpper ≠ [] := by simp [padded_ne_nil]
  rw [upper, String.toList_ofList, value?_of_ne_nil hne,
    valueFrom?_map_toUpper 0 fun c => mem_padded, valueFrom?_padded]

/-- A text says a number in upper-case digits, at least so many of them. -/
structure Says (width n : Nat) (s : String) : Prop where
  /-- Every character is a digit. -/
  digits : ∀ c ∈ s.toList, c ∈ upperDigits
  /-- The width is filled. -/
  width : width ≤ s.toList.length
  /-- The digits have the number for their value. -/
  value : value? s.toList = some n

theorem says_upper (width n : Nat) : Says width n (upper width n) where
  digits := fun _ => mem_upper
  width := by
    rw [upper, String.toList_ofList, List.length_map, padded, List.length_leftpad]
    exact Nat.le_max_left width _
  value := value?_upper width n

end Hex

end Chip8
