import Chip8.Listing.Writer
/-!
# What a failing writer holds

However a listing is cut into lines and pieces, a writer is offered its
characters in order, up to the first that it refuses (`writeTo_eq`). So a
writer that has room for so many characters holds that many from the
beginning of the listing and is left alone after its refusal
(`write_cleanly_cut`); a sink is such a writer (`write_eq_writeTo`).
-/

namespace Chip8

namespace Listing

/-! ## Characters in order -/

/-- The pieces of a line make up its text and its end. -/
theorem Line.pieces_eq (l : Line) :
    l.pieces.flatMap String.toList = (l.text ++ "\n").toList := by
  cases l <;> simp [pieces, text]

theorem toList_text (origin : UInt16) (image : List UInt8) :
    (text origin image).toList =
      (lines origin.toNat image).flatMap fun l => (l.text ++ "\n").toList := by
  simp [text, textOf, List.flatMap_map]

/-- **A listing is offered character by character**, and no further than to
the first that is refused. -/
theorem writeTo_eq {σ : Type} (offer : Writer σ Char) (s : σ) (origin : UInt16)
    (image : List UInt8) :
    writeTo offer s origin image = offer.each s (text origin image).toList := by
  have hline : offer.line = fun s l => offer.each s (l.text ++ "\n").toList := by
    funext s l
    rw [← Line.pieces_eq, Writer.each_flatMap]
    rfl
  rw [toList_text, Writer.each_flatMap, writeTo, hline]

/-! ## The sink as a writer -/

theorem Sink.write_eq (s : Sink) (cs : List Char) : s.write cs = Sink.offer.each s cs := by
  induction cs generalizing s with
  | nil => rfl
  | cons c cs ih =>
    rw [Sink.write, Writer.each, Sink.offer]
    cases s.room with
    | zero => rfl
    | succ room => exact ih _

theorem writeLines_eq (s : Sink) (ls : List Line) :
    writeLines s ls = Writer.each (fun s l => s.write (l.text ++ "\n").toList) s ls := by
  induction ls generalizing s with
  | nil => rfl
  | cons l ls ih =>
    rw [writeLines, Writer.each]
    rcases s.write (l.text ++ "\n").toList with ⟨taken, t⟩
    cases taken with
    | false => rfl
    | true => exact ih t

/-- **A listing in a sink** is written as to any writer. -/
theorem write_eq_writeTo (s : Sink) (origin : UInt16) (image : List UInt8) :
    write s origin image = writeTo Sink.offer s origin image := by
  rw [write, writeLines_eq, writeTo_eq, toList_text, Writer.each_flatMap]
  simp only [Sink.write_eq]

/-! ## Writers that fail -/

section

variable {σ : Type} {offer : Writer σ Char} {held : σ → String} {n : Nat} {s : σ}

/-- A writer takes so many more characters, each at the end of what it holds,
and refuses the one after them. What it does from then on is left open. -/
def TakesOnly (offer : Writer σ Char) (held : σ → String) : Nat → σ → Prop
  | 0, s => ∀ c, (offer s c).1 = false ∧ held (offer s c).2 = held s
  | n + 1, s => ∀ c, (offer s c).1 = true ∧ held (offer s c).2 = (held s).push c ∧
      TakesOnly offer held n (offer s c).2

/-- A sink takes as many characters as it has room for. -/
theorem takesOnly_sink (s : Sink) : TakesOnly Sink.offer Sink.taken s.room s := by
  obtain ⟨taken, room⟩ := s
  induction room generalizing taken with
  | zero => exact fun c => ⟨rfl, rfl⟩
  | succ room ih => exact fun c => ⟨rfl, rfl, ih (taken.push c)⟩

/-- What a writer has room for is taken, and the room is that much less. -/
theorem TakesOnly.each_of_le (h : TakesOnly offer held n s) {cs : List Char}
    (hcs : cs.length ≤ n) :
    (offer.each s cs).1 = true ∧ held (offer.each s cs).2 = held s ++ String.ofList cs ∧
      TakesOnly offer held (n - cs.length) (offer.each s cs).2 := by
  induction cs generalizing n s with
  | nil => exact ⟨rfl, by simp [Writer.each], h⟩
  | cons c cs ih =>
    cases n with
    | zero => cases hcs
    | succ n =>
      obtain ⟨htaken, hheld, hnext⟩ := h c
      obtain ⟨hall, hrest, hroom⟩ := ih hnext (Nat.le_of_succ_le_succ hcs)
      rw [offer.each_cons_of_taken s htaken, List.length_cons, Nat.add_sub_add_right]
      refine ⟨hall, ?_, hroom⟩
      rw [hrest, hheld, ← String.toList_inj]
      simp

/-- **Of a text that is too long** the writer takes what it has room for, and
refuses the next character; its state is the one that this refusal leaves. -/
theorem TakesOnly.each_of_lt (h : TakesOnly offer held n s) {cs : List Char} {c : Char}
    (hc : cs[n]? = some c) :
    ∃ t, held t = held s ++ String.ofList (cs.take n) ∧ TakesOnly offer held 0 t ∧
      offer.each s cs = offer t c := by
  obtain ⟨hn, rfl⟩ := List.getElem?_eq_some_iff.mp hc
  have hlength : (cs.take n).length = n := List.length_take_of_le (Nat.le_of_lt hn)
  have hle : (cs.take n).length ≤ n := Nat.le_of_eq hlength
  obtain ⟨htaken, hheld, hfull⟩ := h.each_of_le hle
  rw [hlength, Nat.sub_self] at hfull
  refine ⟨_, hheld, hfull, ?_⟩
  have hcs : offer.each s cs = offer.each s (cs.take n ++ cs[n] :: cs.drop (n + 1)) := by
    rw [← List.drop_eq_getElem_cons hn, List.take_append_drop]
  rw [hcs, offer.each_append_of_taken s htaken,
    offer.each_cons_of_refused _ (hfull cs[n]).1]

/-- A writer was given a text and holds its first characters, up to a limit;
it says that it took the whole text exactly when the limit allows. -/
structure HoldsFirst (s : String) (limit : Nat) (whole : Bool) (held : String) : Prop where
  whole_iff : whole = true ↔ s.length ≤ limit
  held_eq : held = String.ofList (s.toList.take (min limit s.length))

theorem TakesOnly.holdsFirst (h : TakesOnly offer held n s) (hs : held s = "") (listing : String) :
    HoldsFirst listing n (offer.each s listing.toList).1
      (held (offer.each s listing.toList).2) := by
  rcases Nat.lt_or_ge n listing.toList.length with hlt | hle
  · obtain ⟨t, ht, hfull, heach⟩ := h.each_of_lt (List.getElem?_eq_getElem hlt)
    obtain ⟨hrefused, hheld⟩ := hfull listing.toList[n]
    rw [heach]
    rw [String.length_toList] at hlt
    refine ⟨by simp [hrefused, hlt], ?_⟩
    rw [hheld, ht, hs, String.empty_append, Nat.min_eq_left (Nat.le_of_lt hlt)]
  · obtain ⟨htaken, hheld, -⟩ := h.each_of_le hle
    rw [String.length_toList] at hle
    refine ⟨by simp [htaken, hle], ?_⟩
    rw [hheld, hs, String.empty_append, Nat.min_eq_right hle, ← String.length_toList,
      List.take_length]

end

/-- The listing is what a string holds that it is written to. -/
theorem writeTo_string (origin : UInt16) (image : List UInt8) :
    writeTo (fun s c => (true, s.push c)) "" origin image = (true, text origin image) := by
  have heach (s : String) (cs : List Char) :
      Writer.each (fun s c => (true, s.push c)) s cs = (true, s ++ String.ofList cs) := by
    induction cs generalizing s with
    | nil => simp [Writer.each]
    | cons c cs ih =>
      rw [Writer.each_cons_of_taken _ _ rfl, ih, Prod.mk.injEq, ← String.toList_inj]
      simp
  rw [writeTo_eq, heach, String.ofList_toList, String.empty_append]

/-- **A failing writer holds a clean prefix of the listing.** A sink with room
for so many characters holds the first ones of the listing, and all were taken
exactly when there are no more. So does any writer that takes that many and
refuses the next, whatever it would do after that: its state is the one in
which its refusal left it, as nothing more is offered. -/
theorem write_cleanly_cut (origin : UInt16) (image : List UInt8) (limit : Nat) :
    HoldsFirst (text origin image) limit (write (Sink.ofRoom limit) origin image).1
      (write (Sink.ofRoom limit) origin image).2.taken ∧
    ∀ (σ : Type) (offer : Writer σ Char) (held : σ → String) (s : σ),
      TakesOnly offer held limit s → held s = "" →
      HoldsFirst (text origin image) limit (writeTo offer s origin image).1
        (held (writeTo offer s origin image).2) ∧
      ((writeTo offer s origin image).1 = false →
        ∃ t c, (text origin image).toList[limit]? = some c ∧
          held t = held (writeTo offer s origin image).2 ∧
          writeTo offer s origin image = offer t c) := by
  have hfirst {σ : Type} {offer : Writer σ Char} {held : σ → String} {s : σ}
      (h : TakesOnly offer held limit s) (hs : held s = "") :
      HoldsFirst (text origin image) limit (writeTo offer s origin image).1
        (held (writeTo offer s origin image).2) := by
    rw [writeTo_eq]
    exact h.holdsFirst hs (text origin image)
  refine ⟨?_, fun σ offer held s h hs => ⟨hfirst h hs, fun hfail => ?_⟩⟩
  · rw [write_eq_writeTo]
    exact hfirst (takesOnly_sink (Sink.ofRoom limit)) rfl
  · have hlt : limit < (text origin image).toList.length := by
      rw [String.length_toList]
      refine Nat.lt_of_not_le fun hle => ?_
      rw [(hfirst h hs).whole_iff.mpr hle] at hfail
      cases hfail
    obtain ⟨t, ht, hfull, heach⟩ := h.each_of_lt (List.getElem?_eq_getElem hlt)
    rw [writeTo_eq, heach]
    exact ⟨t, _, List.getElem?_eq_getElem hlt, (hfull _).2.symm, rfl⟩

/-- A writer that has room again once it has refused a character. -/
def forgiving : Writer Sink Char := fun s c =>
  match s.room with
  | 0 => (false, ⟨s.taken, 80⟩)
  | room + 1 => (true, ⟨s.taken.push c, room⟩)

theorem write_cleanly_cut_forgiving :
    TakesOnly forgiving Sink.taken 2 (Sink.ofRoom 2) ∧ (Sink.ofRoom 2).taken = "" ∧
      HoldsFirst (text 0x200 [0x00, 0xE0]) 2
        (writeTo forgiving (Sink.ofRoom 2) 0x200 [0x00, 0xE0]).1
        (writeTo forgiving (Sink.ofRoom 2) 0x200 [0x00, 0xE0]).2.taken := by
  have htakes : TakesOnly forgiving Sink.taken 2 (Sink.ofRoom 2) :=
    fun _ => ⟨rfl, rfl, fun _ => ⟨rfl, rfl, fun _ => ⟨rfl, rfl⟩⟩⟩
  exact ⟨htakes, rfl,
    ((write_cleanly_cut 0x200 [0x00, 0xE0] 2).2 Sink forgiving Sink.taken _ htakes rfl).1⟩

example : writeTo forgiving (Sink.ofRoom 2) 0x200 [0x00, 0xE0] = (false, ⟨"02", 80⟩) := by
  decide +kernel

end Listing

end Chip8
