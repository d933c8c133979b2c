import Chip8.Listing.Reader
import Chip8.Proofs.Hexadecimal
import Chip8.Proofs.Separators
/-!
# What a listing shows

No text of an instruction breaks a line or looks like the mark of a word
that is no instruction (`mem_mnemonic`). So every line of a listing is its
address, its digits and a remark on them, and ends where the listing ends it
(`newline_not_mem_text`); its fields are found again from the left, whatever
the remark is (`ofText?_text`), and the reader takes any listing apart into
its lines (`ofText?_textOf`). A listing therefore shows its image without
loss (`text_lossless`).
-/

namespace Chip8

/-! ## The characters of an instruction -/

namespace Operand

/-- The characters that operands are made of. -/
def alphabet : List Char :=
  "0123456789ABCDEFabcdefxVIDTSK[]".toList

theorem mem_text {o : Operand} {c : Char} (h : c ∈ o.text.toList) : c ∈ alphabet := by
  have hupper : ∀ c ∈ Hex.upperDigits, c ∈ alphabet := Hex.forall_mem_of_all (by decide)
  have hliteral : ∀ c ∈ 'x' :: Hex.lowerDigits, c ∈ alphabet := Hex.forall_mem_of_all (by decide)
  cases o with
  | register x =>
    rw [text, String.toList_append, List.mem_append] at h
    rcases h with h | h
    · exact Hex.forall_mem_of_all (by decide) c h
    · exact hupper c (Hex.mem_upper h)
  | number n => exact hliteral c (Hex.mem_literal h)
  | _ => exact Hex.forall_mem_of_all (by decide) c h

end Operand

namespace Instruction

/-- The names that instructions go by. -/
def names : List String :=
  ["CLS", "RET", "JP", "CALL", "SE", "SNE", "LD", "ADD", "OR", "AND", "XOR", "SUB", "SHR",
    "SUBN", "SHL", "RND", "DRW", "SKP", "SKNP"]

/-- The characters that assembly text is made of. -/
def alphabet : List Char :=
  "ABCDEFGHIJKLMNOPQRSTUVWXYZ0123456789abcdefx ,[]".toList

theorem name_mem_names (i : Instruction) : i.assembly.name ∈ names := by
  cases i with
  | arithmetic f x y => cases f <;> simp [assembly, arithmeticName, names]
  | _ => simp [assembly, names]

theorem names_alphabet {s : String} (hs : s ∈ names) : ∀ c ∈ s.toList, c ∈ alphabet := by
  have hall : names.all (fun s => s.toList.all fun c => decide (c ∈ alphabet)) = true := by
    decide
  exact Hex.forall_mem_of_all (List.all_eq_true.mp hall s hs)

/-- Between the operands stand a comma and a blank. -/
theorem operands_alphabet (os : List Operand) :
    ∀ c ∈ (", ".intercalate (os.map Operand.text)).toList, c ∈ alphabet := by
  intro c hc
  rw [String.toList_intercalate, List.map_map] at hc
  rcases mem_of_mem_intercalate hc with hc | ⟨part, hpart, hc⟩
  · exact Hex.forall_mem_of_all (by decide) c hc
  · obtain ⟨o, -, rfl⟩ := List.mem_map.mp hpart
    exact Hex.forall_mem_of_all (by decide) c (Operand.mem_text hc)

/-- **The text of an instruction** is made of letters, digits, blanks, commas
and brackets. -/
theorem mem_mnemonic {i : Instruction} {c : Char} (h : c ∈ i.mnemonic.toList) :
    c ∈ alphabet := by
  have hname := names_alphabet i.name_mem_names
  rw [mnemonic, Assembly.text] at h
  split at h
  · exact hname c h
  · simp only [String.toList_append, List.mem_append] at h
    rcases h with (h | h) | h
    · exact hname c h
    · exact Hex.forall_mem_of_all (by decide) c h
    · exact operands_alphabet _ c h

theorem mnemonic_ne_mark (i : Instruction) : i.mnemonic ≠ "???" := by
  intro h
  have hmark : '?' ∈ i.mnemonic.toList := h ▸ by decide
  exact (by decide : '?' ∉ alphabet) (mem_mnemonic hmark)

theorem newline_not_mem_mnemonic (i : Instruction) : '\n' ∉ i.mnemonic.toList :=
  fun h => (by decide : '\n' ∉ alphabet) (mem_mnemonic h)

end Instruction

namespace Listing

/-! ## One line -/

namespace Line

/-- The digits that a line shows: two for each of its bytes. -/
def digits (l : Line) : String :=
  String.join (l.bytes.map fun b => Hex.upper 2 b.toNat)

/-- What a line says of its digits, past the blank that ends them. -/
def remark : Line → String
  | word _ high low => " " ++ meaning (Word.ofBytes high low)
  | byte _ b => "   DB " ++ Hex.literal 2 b.toNat

/-- A line is its address, its digits and its remark. -/
theorem text_eq (l : Line) :
    l.text = Hex.upper 4 l.address ++ ": " ++ l.digits ++ " " ++ l.remark := by
  apply String.toList_injective
  cases l with
  | word address high low =>
    simp [text, digits, remark, bytes, Line.address, Word.toNat_ofBytes,
      Hex.upper_word _ low.toNat_lt]
  | byte address b => simp [text, digits, remark, bytes, Line.address]

/-- The address of a line is over at the first colon. -/
theorem colon_not_mem_address (address : Nat) : ':' ∉ (Hex.upper 4 address).toList :=
  fun h => (by decide : ':' ∉ Hex.upperDigits) (Hex.mem_upper h)

theorem mem_digits {l : Line} {c : Char} (h : c ∈ l.digits.toList) : c ∈ Hex.upperDigits := by
  rw [digits, String.toList_join, List.mem_flatMap] at h
  obtain ⟨s, hs, hc⟩ := h
  obtain ⟨b, -, rfl⟩ := List.mem_map.mp hs
  exact Hex.mem_upper hc

theorem newline_not_mem_meaning (w : UInt16) : '\n' ∉ (meaning w).toList := by
  rw [meaning]
  cases Instruction.decode? w with
  | none => decide
  | some i => exact i.newline_not_mem_mnemonic

theorem newline_not_mem_remark (l : Line) : '\n' ∉ l.remark.toList := by
  cases l with
  | word address high low =>
    rw [remark, String.toList_append, List.mem_append]
    rintro (h | h)
    · exact (by decide : '\n' ∉ " ".toList) h
    · exact newline_not_mem_meaning _ h
  | byte address b =>
    rw [remark, String.toList_append, List.mem_append]
    rintro (h | h)
    · exact (by decide : '\n' ∉ "   DB ".toList) h
    · exact (by decide : '\n' ∉ 'x' :: Hex.lowerDigits) (Hex.mem_literal h)

/-- **No line is broken** by what it shows. -/
theorem newline_not_mem_text (l : Line) : '\n' ∉ l.text.toList := by
  have hdigit : '\n' ∉ Hex.upperDigits := by decide
  simp only [text_eq, String.toList_append, List.mem_append]
  rintro ((((h | h) | h) | h) | h)
  · exact hdigit (Hex.mem_upper h)
  · exact (by decide : '\n' ∉ ": ".toList) h
  · exact hdigit (mem_digits h)
  · exact (by decide : '\n' ∉ " ".toList) h
  · exact l.newline_not_mem_remark h

/-- A word is marked as no instruction exactly when it is none. -/
theorem meaning_eq_mark_iff (w : UInt16) : meaning w = "???" ↔ Instruction.decode? w = none := by
  rw [meaning]
  cases Instruction.decode? w with
  | none => simp
  | some i => simp [i.mnemonic_ne_mark]

/-! ## One line read back -/

theorem value?_digits_word (address : Nat) (high low : UInt8) :
    Hex.value? (word address high low).digits.toList = some (256 * high.toNat + low.toNat) := by
  have h : (word address high low).digits = Hex.upper 4 (256 * high.toNat + low.toNat) := by
    simp [digits, bytes, Hex.upper_word _ low.toNat_lt]
  rw [h, Hex.value?_upper]

theorem length_digits (l : Line) : l.digits.toList.length = 2 * l.bytes.length := by
  have hbyte (b : UInt8) : (Hex.upper 2 b.toNat).toList.length = 2 := by
    rw [Hex.upper_byte b.toNat_lt]
    rfl
  cases l <;> simp [digits, bytes, hbyte]

/-- The digits of a line give its bytes. -/
theorem ofDigits?_digits (l : Line) :
    (Hex.value? l.digits.toList).bind (fun n => ofDigits? l.address n l.digits.toList.length) =
      some l := by
  cases l with
  | word address high low =>
    have hhigh : (256 * high.toNat + low.toNat) / 256 = high.toNat := by
      have := low.toNat_lt
      omega
    have hlow : UInt8.ofNat (256 * high.toNat + low.toNat) = low := by
      apply UInt8.toNat_inj.mp
      simp
    rw [value?_digits_word, length_digits, Option.bind_some]
    simp [ofDigits?, bytes, Line.address, hhigh, hlow]
  | byte address b =>
    have hdigits : (byte address b).digits = Hex.upper 2 b.toNat := by simp [digits, bytes]
    rw [length_digits, hdigits, Hex.value?_upper, Option.bind_some]
    simp [ofDigits?, bytes, Line.address]

/-- **A line reads back.** Its address ends at the first colon and its digits
at the first blank after them, so the remark does not matter. -/
theorem ofText?_text (l : Line) : ofText? l.text.toList = some l := by
  have htext : l.text.toList =
      (Hex.upper 4 l.address).toList ++
        ':' :: ' ' :: (l.digits.toList ++ ' ' :: l.remark.toList) := by
    simp [text_eq]
  have haddress : l.text.toList.takeWhile (· ≠ ':') = (Hex.upper 4 l.address).toList := by
    rw [htext]
    exact takeWhile_ne_append (colon_not_mem_address l.address) _
  have hdigits : (l.text.toList.drop ((Hex.upper 4 l.address).toList.length + 2)).takeWhile
      (· ≠ ' ') = l.digits.toList := by
    have hblank : ' ' ∉ l.digits.toList := fun h =>
      (by decide : ' ' ∉ Hex.upperDigits) (mem_digits h)
    rw [htext, ← List.drop_drop, List.drop_left]
    exact takeWhile_ne_append hblank _
  obtain ⟨n, hn, hl⟩ := Option.bind_eq_some_iff.mp l.ofDigits?_digits
  simp only [ofText?, haddress, hdigits, Hex.value?_upper, hn, hl]
  simp

end Line

/-! ## All lines -/

/-- The first line of a text is over at the first end of a line. -/
theorem splitLines_append {cs : List Char} (h : '\n' ∉ cs) (current rest : List Char) :
    splitLines current (cs ++ '\n' :: rest) =
      (splitLines [] rest).map ((current.reverse ++ cs) :: ·) := by
  -- the line so far is held in reverse, so the induction is for any line so far
  induction cs generalizing current with
  | nil => rw [List.nil_append, splitLines, List.append_nil]
  | cons c cs ih =>
    rw [List.mem_cons, not_or] at h
    simp [splitLines, Ne.symm h.1, ih h.2]

/-- A text is taken apart where the lines end that it is put together of. -/
theorem splitLines_textOf (ls : List Line) :
    splitLines [] (textOf ls).toList = some (ls.map fun l => l.text.toList) := by
  have htext : (textOf ls).toList = ls.flatMap fun l => l.text.toList ++ ['\n'] := by
    simp [textOf, List.flatMap_map]
  rw [htext]
  clear htext
  induction ls with
  | nil => rfl
  | cons l ls ih =>
    rw [List.flatMap_cons, List.append_assoc, List.singleton_append,
      splitLines_append l.newline_not_mem_text, ih]
    rfl

theorem lineAt?_textOf (ls : List Line) (k : Nat) :
    lineAt? (textOf ls) k = ls[k]?.map Line.text := by
  simp [lineAt?, splitLines_textOf, Function.comp_def]

theorem linesOf?_map_text (ls : List Line) :
    linesOf? (ls.map fun l => l.text.toList) = some ls := by
  induction ls with
  | nil => rfl
  | cons l ls ih => simp only [List.map_cons, linesOf?, Line.ofText?_text, ih]

/-- **A listing reads back** as its lines. -/
theorem ofText?_textOf (ls : List Line) : ofText? (textOf ls) = some ls := by
  rw [ofText?, splitLines_textOf, Option.bind_some, linesOf?_map_text]

theorem imageOfText?_text (origin : UInt16) (image : List UInt8) :
    imageOfText? (text origin image) = some image := by
  rw [imageOfText?, text, ofText?_textOf, Option.map_some, imageOf_lines]

theorem originOfText?_text {image : List UInt8} (h : image ≠ []) (origin : UInt16) :
    originOfText? (text origin image) = some origin.toNat := by
  rw [originOfText?, text, ofText?_textOf, Option.bind_some]
  match image with
  | [] => exact absurd rfl h
  | [b] => rfl
  | high :: low :: image => rfl

/-! ## The lines of an image -/

theorem length_lines (address : Nat) (image : List UInt8) :
    (lines address image).length = (image.length + 1) / 2 := by
  fun_induction lines address image with
  | case1 => rfl
  | case2 => simp
  | case3 address high low image ih =>
    simp only [List.length_cons, ih]
    omega

/-- The place of a line in a listing gives its address and its bytes. -/
theorem of_getElem?_lines {address : Nat} {image : List UInt8} {k : Nat} {l : Line}
    (h : (lines address image)[k]? = some l) :
    l.address = address + 2 * k ∧ l.bytes = (image.drop (2 * k)).take 2 := by
  fun_induction lines address image generalizing k with
  | case1 => cases h
  | case2 address b =>
    cases k with
    | zero =>
      cases h
      exact ⟨rfl, rfl⟩
    | succ k => cases h
  | case3 address high low image ih =>
    cases k with
    | zero =>
      cases h
      exact ⟨rfl, rfl⟩
    | succ k =>
      obtain ⟨haddress, hbytes⟩ := ih h
      refine ⟨by omega, ?_⟩
      rw [hbytes]
      rfl

/-- Two bytes side by side at an even place are listed as a word. -/
theorem getElem?_lines_word {address : Nat} {image : List UInt8} {k : Nat} {high low : UInt8}
    (hhigh : image[2 * k]? = some high) (hlow : image[2 * k + 1]? = some low) :
    (lines address image)[k]? = some (.word (address + 2 * k) high low) := by
  fun_induction lines address image generalizing k with
  | case1 => cases hhigh
  | case2 address b => cases hlow
  | case3 address first second image ih =>
    cases k with
    | zero =>
      cases hhigh
      cases hlow
      rfl
    | succ k =>
      rw [List.getElem?_cons_succ, ih hhigh hlow]
      congr 2
      omega

/-- Equal texts are the listings of one image at one address, unless both
are empty. -/
theorem eq_of_text_eq {origin origin' : UInt16} {image image' : List UInt8} (h : image ≠ [])
    (heq : text origin image = text origin' image') : origin = origin' ∧ image = image' := by
  have himage : image = image' := by
    have hread := imageOfText?_text origin image
    rw [heq, imageOfText?_text] at hread
    exact (Option.some.inj hread).symm
  subst himage
  have hread := originOfText?_text h origin
  rw [heq, originOfText?_text h] at hread
  exact ⟨UInt16.toNat_inj.mp (Option.some.inj hread).symm, rfl⟩

/-- **A listing shows its image without loss.** It has a line for every two
bytes, each with its end, and one for a last byte. A line begins with its
address, which goes on past sixteen bits, and the digits of its bytes; what
comes after them breaks no line. One reader finds the image of any listing,
and the address that it is loaded at unless there is nothing to load. -/
theorem text_lossless (origin : UInt16) (image : List UInt8) :
    (∃ shown : List String,
      text origin image = String.join (shown.map (· ++ "\n")) ∧
      (∀ s ∈ shown, '\n' ∉ s.toList) ∧
      shown.length = (image.length + 1) / 2 ∧
      ∀ k s, shown[k]? = some s → ∃ address remark : String,
        s = address ++ ": " ++
          String.join (((image.drop (2 * k)).take 2).map fun b => Hex.upper 2 b.toNat) ++
            " " ++ remark ∧
        address = Hex.upper 4 (origin.toNat + 2 * k) ∧
        Hex.Says 4 (origin.toNat + 2 * k) address) ∧
    imageOfText? (text origin image) = some image ∧
    (image ≠ [] → originOfText? (text origin image) = some origin.toNat) ∧
    ∀ (origin' : UInt16) (image' : List UInt8), image ≠ [] → image' ≠ [] →
      text origin image = text origin' image' → origin = origin' ∧ image = image' := by
  refine ⟨⟨(lines origin.toNat image).map Line.text, ?_, ?_, ?_, fun k s hs => ?_⟩,
    imageOfText?_text origin image, fun h => originOfText?_text h origin,
    fun origin' image' h _ heq => eq_of_text_eq h heq⟩
  · rw [text, textOf, List.map_map]
    rfl
  · intro s hs
    obtain ⟨l, -, rfl⟩ := List.mem_map.mp hs
    exact l.newline_not_mem_text
  · rw [List.length_map, length_lines]
  · rw [List.getElem?_map, Option.map_eq_some_iff] at hs
    obtain ⟨l, hl, rfl⟩ := hs
    obtain ⟨haddress, hbytes⟩ := of_getElem?_lines hl
    refine ⟨_, l.remark, ?_, rfl, Hex.says_upper 4 _⟩
    rw [l.text_eq, haddress, Line.digits, hbytes]

theorem text_lossless_pastWords :
    ([0x00, 0xE0, 0xAB] : List UInt8) ≠ [] ∧
      originOfText? (text 0xFFFF [0x00, 0xE0, 0xAB]) = some 0xFFFF :=
  ⟨by decide, (text_lossless 0xFFFF [0x00, 0xE0, 0xAB]).2.2.1 (by decide)⟩

example : text 0xFFFF [0x00, 0xE0, 0xAB] = "FFFF: 00E0  CLS\n10001: AB    DB 0xab\n" := by
  decide +kernel

end Listing

end Chip8
