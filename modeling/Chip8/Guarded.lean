import Chip8.Buffer
/-!
# Guarded arithmetic

Sums, products and differences in words of a fixed width. What does not fit
has no result, where plain words would wrap around: a computation in which
every step is guarded tells whether it could leave its words. A shift has a
result only if it is shorter than its word, and a block is copied only into
a range of its own length.
-/

namespace Chip8

namespace Guarded

/-- The number of values of a word of 128 bits. -/
def wideSize : Nat := UInt64.size * UInt64.size

/-- A number, if it is below the size of the word that it goes into. -/
def fit? (size n : Nat) : Option Nat :=
  if n < size then some n else none

/-- A number as a byte, if it is one. -/
def byte? (n : Nat) : Option UInt8 :=
  (fit? UInt8.size n).map UInt8.ofNat

/-- A number as a word of 16 bits, if it is one. -/
def word? (n : Nat) : Option UInt16 :=
  (fit? UInt16.size n).map UInt16.ofNat

/-- A difference, if it is not negative. -/
def sub? (a b : Nat) : Option Nat :=
  if b ≤ a then some (a - b) else none

/-- A byte shifted to the right, if by less than its width. -/
def shiftRight? (b : UInt8) (count : Nat) : Option UInt8 :=
  if count < 8 then some (b >>> UInt8.ofNat count) else none

/-- A buffer with a block copied into the places from `start` up to `stop`,
if they lie inside and are as many as the block is long. -/
def copy? {α : Type} {n : Nat} (b : Buffer α n) (start stop : Nat) (block : List α) :
    Option (Buffer α n) :=
  if start ≤ stop ∧ stop ≤ n ∧ block.length = stop - start then
    some (Vector.ofFn fun i =>
      if start ≤ i.val then block.getD (i.val - start) (b.get i) else b.get i)
  else none

variable {size n a b : Nat}

theorem fit?_of_lt (h : n < size) : fit? size n = some n :=
  if_pos h

theorem fit?_eq_none_iff : fit? size n = none ↔ size ≤ n := by
  unfold fit?
  split <;> simp <;> omega

theorem byte?_of_lt (h : n < 256) : byte? n = some (UInt8.ofNat n) := by
  rw [byte?, fit?_of_lt h, Option.map_some]

theorem word?_of_lt (h : n < 65536) : word? n = some (UInt16.ofNat n) := by
  rw [word?, fit?_of_lt h, Option.map_some]

theorem sub?_of_le (h : b ≤ a) : sub? a b = some (a - b) :=
  if_pos h

/-- One less than a number up to 256 is a byte. -/
theorem bind_byte?_sub?_one (h : n < 256) :
    (sub? (n + 1) 1).bind byte? = some (UInt8.ofNat n) := by
  rw [sub?_of_le (Nat.le_add_left 1 n), Option.bind_some, Nat.add_sub_cancel, byte?_of_lt h]

end Guarded

end Chip8
