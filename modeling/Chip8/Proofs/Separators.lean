import Chip8.Instruction.Assembly
/-!
# Texts with separators

A part of a text that ends at the first of some character is found again from
the left, as long as the part does not have that character
(`takeWhile_ne_append`, `of_append_cons_eq`); a part that begins behind the
last of one is found again from the right. Parts with a comma and a blank
between them are found again one after the other
(`splitOperands_intercalate`), so they are known from the text that they make
up (`commaSeparated_inj`).
-/

namespace Chip8

variable {c : Char} {xs ys rest rest' : List Char}

/-- Up to the first of a character that the beginning does not have. -/
theorem takeWhile_ne_append (h : c ∉ xs) (rest : List Char) :
    (xs ++ c :: rest).takeWhile (· ≠ c) = xs := by
  have hne : ∀ d ∈ xs, decide (d ≠ c) = true := fun d hd =>
    decide_eq_true fun e : d = c => h (e ▸ hd)
  rw [List.takeWhile_append_of_pos hne]
  simp

/-- What comes before the first of a character is known, and what comes after
it. -/
theorem of_append_cons_eq (hx : c ∉ xs) (hy : c ∉ ys) (h : xs ++ c :: rest = ys ++ c :: rest') :
    xs = ys ∧ rest = rest' := by
  have hxy := congrArg (List.takeWhile (· ≠ c)) h
  rw [takeWhile_ne_append hx, takeWhile_ne_append hy] at hxy
  subst hxy
  exact ⟨rfl, List.tail_eq_of_cons_eq (List.append_cancel_left h)⟩

/-- Nothing but separators stands between the parts. -/
theorem mem_of_mem_intercalate {sep : List Char} {parts : List (List Char)}
    (h : c ∈ sep.intercalate parts) : c ∈ sep ∨ ∃ part ∈ parts, c ∈ part := by
  induction parts with
  | nil => cases h
  | cons part parts ih =>
    cases parts with
    | nil => exact .inr ⟨part, List.mem_singleton_self _, by simpa using h⟩
    | cons next parts =>
      simp only [List.intercalate_cons_cons, List.mem_append] at h
      rcases h with (h | h) | h
      · exact .inr ⟨part, List.mem_cons_self, h⟩
      · exact .inl h
      · exact (ih h).imp_right fun ⟨p, hp, hc⟩ => ⟨p, List.mem_cons_of_mem _ hp, hc⟩

namespace Assembly

theorem splitOperands_cons {part : List Char} {parts : List (List Char)} (h : c ≠ ',')
    (hx : splitOperands xs = part :: parts) : splitOperands (c :: xs) = (c :: part) :: parts := by
  rw [splitOperands, hx]
  exact fun _ hc => absurd hc h

/-- The last part goes on to the end. -/
theorem splitOperands_of_not_mem (h : ',' ∉ xs) : splitOperands xs = [xs] := by
  induction xs with
  | nil => rfl
  | cons c xs ih =>
    rw [List.mem_cons, not_or] at h
    exact splitOperands_cons (Ne.symm h.1) (ih h.2)

/-- A part is over at the first comma. -/
theorem splitOperands_append (h : ',' ∉ xs) (rest : List Char) :
    splitOperands (xs ++ ',' :: ' ' :: rest) = xs :: splitOperands rest := by
  induction xs with
  | nil => rfl
  | cons c xs ih =>
    rw [List.mem_cons, not_or] at h
    exact splitOperands_cons (Ne.symm h.1) (ih h.2)

/-- **Parts without commas are found again.** -/
theorem splitOperands_intercalate {parts : List (List Char)} (h : ∀ part ∈ parts, ',' ∉ part)
    (hne : parts ≠ []) : splitOperands ([',', ' '].intercalate parts) = parts := by
  induction parts with
  | nil => exact absurd rfl hne
  | cons part parts ih =>
    rw [List.forall_mem_cons] at h
    cases parts with
    | nil => simpa using splitOperands_of_not_mem h.1
    | cons next parts =>
      have hrest := ih h.2 (List.cons_ne_nil _ _)
      rw [List.intercalate_cons_cons, List.append_assoc]
      exact (splitOperands_append h.1 _).trans (congrArg _ hrest)

end Assembly

/-- A part between commas: not empty, and without a comma. -/
def IsPart (xs : List Char) : Prop :=
  xs ≠ [] ∧ ',' ∉ xs

/-- **Parts between commas are known from their text**, their number too. -/
theorem commaSeparated_inj {ps qs : List (List Char)} (hp : ∀ p ∈ ps, IsPart p)
    (hq : ∀ q ∈ qs, IsPart q) (h : [',', ' '].intercalate ps = [',', ' '].intercalate qs) :
    ps = qs := by
  -- no parts are read back as one empty part, which parts never are
  have hread {ps : List (List Char)} (hp : ∀ p ∈ ps, IsPart p) :
      (Assembly.splitOperands ([',', ' '].intercalate ps)).filter (· ≠ []) = ps := by
    by_cases hne : ps = []
    · subst hne
      rfl
    · rw [Assembly.splitOperands_intercalate (fun p hpmem => (hp p hpmem).2) hne,
        List.filter_eq_self]
      exact fun p hpmem => decide_eq_true (hp p hpmem).1
  rw [← hread hp, h, hread hq]

end Chip8
