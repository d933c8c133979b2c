import Chip8.Listing.Sink
/-!
# Listings written anywhere

A writer is offered one character after the other and takes each or refuses
it; a writer that has refused one may well take the next. A line is written
in pieces, the address first and the end of the line last, and the first
refusal ends the piece, the line and the listing, however the characters are
cut into portions (`Writer.each_flatMap`).
-/

namespace Chip8

namespace Listing

/-- What becomes of a writer that is offered something, by its state: whether
it takes that, and its state afterwards. -/
abbrev Writer (σ α : Type) := σ → α → Bool × σ

/-- Things offered one by one, up to the first that is refused: whether all
were taken, and the state afterwards. -/
def Writer.each {σ α : Type} (offer : Writer σ α) (s : σ) : List α → Bool × σ
  | [] => (true, s)
  | a :: rest =>
    match offer s a with
    | (true, s) => offer.each s rest
    | (false, s) => (false, s)

/-- The pieces that a line is written in. -/
def Line.pieces : Line → List String
  | word address high low =>
    let w := Word.ofBytes high low
    [Hex.upper 4 address, ": ", Hex.upper 4 w.toNat, "  ", meaning w, "\n"]
  | byte address b =>
    [Hex.upper 4 address, ": ", Hex.upper 2 b.toNat, "    DB ", Hex.literal 2 b.toNat, "\n"]

/-- A piece of text offered character by character. -/
def Writer.text {σ : Type} (offer : Writer σ Char) : Writer σ String :=
  fun s piece => offer.each s piece.toList

/-- A line offered piece by piece. -/
def Writer.line {σ : Type} (offer : Writer σ Char) : Writer σ Line :=
  fun s l => offer.text.each s l.pieces

/-- The listing of an image offered line by line. -/
def writeTo {σ : Type} (offer : Writer σ Char) (s : σ) (origin : UInt16) (image : List UInt8) :
    Bool × σ :=
  offer.line.each s (lines origin.toNat image)

/-- A sink as a writer: it takes a character while there is room. -/
def Sink.offer : Writer Sink Char := fun s c =>
  match s.room with
  | 0 => (false, s)
  | room + 1 => (true, ⟨s.taken.push c, room⟩)

/-! ## Offering in portions -/

namespace Writer

variable {σ α β : Type} (offer : Writer σ α) (s : σ)

theorem each_cons_of_taken {a : α} (h : (offer s a).1 = true) (rest : List α) :
    offer.each s (a :: rest) = offer.each (offer s a).2 rest := by
  rw [each]
  rcases hoffer : offer s a with ⟨taken, t⟩
  rw [hoffer] at h
  cases h
  rfl

/-- Nothing is offered after a refusal. -/
theorem each_cons_of_refused {a : α} (h : (offer s a).1 = false) (rest : List α) :
    offer.each s (a :: rest) = offer s a := by
  rw [each]
  rcases hoffer : offer s a with ⟨taken, t⟩
  rw [hoffer] at h
  cases h
  rfl

theorem each_append (as bs : List α) :
    offer.each s (as ++ bs) =
      match offer.each s as with
      | (true, s) => offer.each s bs
      | (false, s) => (false, s) := by
  induction as generalizing s with
  | nil => rfl
  | cons a as ih =>
    rw [List.cons_append, each, each]
    rcases offer s a with ⟨taken, t⟩
    cases taken with
    | false => rfl
    | true => exact ih t

theorem each_append_of_taken {as : List α} (h : (offer.each s as).1 = true) (bs : List α) :
    offer.each s (as ++ bs) = offer.each (offer.each s as).2 bs := by
  rw [each_append]
  rcases heach : offer.each s as with ⟨taken, t⟩
  rw [heach] at h
  cases h
  rfl

/-- **Portions do not matter**: the first refusal ends all of them. -/
theorem each_flatMap (f : β → List α) (bs : List β) :
    offer.each s (bs.flatMap f) = each (fun s b => offer.each s (f b)) s bs := by
  induction bs generalizing s with
  | nil => rfl
  | cons b bs ih =>
    rw [List.flatMap_cons, each_append, each]
    rcases offer.each s (f b) with ⟨taken, t⟩
    cases taken with
    | false => rfl
    | true => exact ih t

end Writer

end Listing

end Chip8
