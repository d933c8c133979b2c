/-!
# Random numbers

A permuted congruential generator with 64 bits of state and 32 bits of
output: the state moves by multiplication and addition modulo 2^64, and an
output is the shifted and folded state, rotated by its top five bits. The
numbers of one seed are always the same.

A number in a range is the upper half of an output times the size of the
range. Where the size does not divide 2^32 some numbers would stand for one
output more than others, so a product with a low lower half is given up and
the next output taken (`settle`). That comes to an end for every size,
because the generator comes by every state (`exists_repeat_eq`). For a range
of 256 numbers nothing is given up: it takes one output, and its top byte is
the number (`below_byte`).
-/

namespace Chip8

/-- The state of the generator. -/
structure Random where
  /-- The 64 bits from which the next output is computed. -/
  state : UInt64
deriving DecidableEq, Repr

namespace Random

/-- The factor of the state's movement. -/
def multiplier : UInt64 := 6364136223846793005

/-- The odd number added on each movement. -/
def increment : UInt64 := (1442695040888963407 : UInt64) <<< 1 ||| 1

/-- A word rotated to the right. -/
def rotateRight (w count : UInt32) : UInt32 :=
  w >>> count ||| w <<< (32 - count)

/-- The state after one movement. -/
def advance (r : Random) : Random :=
  ⟨r.state * multiplier + increment⟩

/-- The output that the state stands for. -/
def output (r : Random) : UInt32 :=
  rotateRight ((r.state >>> 18 ^^^ r.state) >>> 27).toUInt32 (r.state >>> 59).toUInt32

/-- The generator of a seed: from state zero, one movement before the seed
is added and one after. -/
def ofSeed (seed : UInt64) : Random :=
  advance ⟨(advance ⟨0⟩).state + seed⟩

/-! ## Every state is reached

The factor is one more than a multiple of four, and the number added is odd.
So 2^k movements leave the lower k bits of the state alone and change the
one above them, and any state can be made up bit by bit. A power of two is a
word here, and the last of them is zero. -/

/-- Movements may be made in two goes. -/
theorem repeat_add (m n : Nat) (r : Random) :
    (m + n).repeat advance r = m.repeat advance (n.repeat advance r) := by
  induction m with
  | zero => rw [Nat.zero_add]; rfl
  | succ m ih => rw [Nat.succ_add, Nat.repeat, Nat.repeat, ih]

/-- The powers of two, as words. -/
def power : Nat → UInt64
  | 0 => 1
  | k + 1 => 2 * power k

/-- A word is even or odd. -/
theorem exists_half (w : UInt64) : ∃ h, w = 2 * h ∨ w = 2 * h + 1 := by
  have hlt : w.toNat < 18446744073709551616 := w.toNat_lt
  refine ⟨w / 2, ?_⟩
  rcases Nat.mod_two_eq_zero_or_one w.toNat with h | h
  · left
    apply UInt64.toNat_inj.1
    simp only [UInt64.toNat_mul, UInt64.toNat_div, UInt64.reduceToNat]
    omega
  · right
    apply UInt64.toNat_inj.1
    simp only [UInt64.toNat_mul, UInt64.toNat_div, UInt64.toNat_add, UInt64.reduceToNat]
    omega

/-- A movement of twice the length has the form of one again. -/
theorem moved_twice (state p t s : UInt64) :
    (state * (1 + 4 * p * t) + p * (2 * s + 1)) * (1 + 4 * p * t) + p * (2 * s + 1) =
      state * (1 + 4 * (2 * p) * (t + 2 * p * t * t)) +
        2 * p * (2 * (s + p * t * (2 * s + 1)) + 1) := by
  grind

/-- What some number of movements multiplies the state by, and what it adds
to it: twice as many for the next power of two. -/
theorem exists_state_repeat (k : Nat) :
    ∃ (n : Nat) (t s : UInt64), ∀ r : Random, (n.repeat advance r).state =
      r.state * (1 + 4 * power k * t) + power k * (2 * s + 1) := by
  induction k with
  | zero =>
    refine ⟨1, multiplier / 4, increment / 2, fun r => ?_⟩
    have hm : multiplier = 1 + 4 * 1 * (multiplier / 4) := by decide
    have hi : increment = 1 * (2 * (increment / 2) + 1) := by decide
    show r.state * multiplier + increment = _
    rw [power, ← hm, ← hi]
  | succ k ih =>
    obtain ⟨n, t, s, h⟩ := ih
    refine ⟨n + n, t + 2 * power k * t * t, s + power k * t * (2 * s + 1), fun r => ?_⟩
    rw [repeat_add, h, h, power]
    exact moved_twice ..

/-- So many movements change a state by an odd multiple of a power of two. -/
theorem exists_state_repeat_eq_add (k : Nat) (r : Random) :
    ∃ (n : Nat) (w : UInt64),
      (n.repeat advance r).state = r.state + power k * (2 * w + 1) := by
  obtain ⟨n, t, s, h⟩ := exists_state_repeat k
  refine ⟨n, 2 * t * r.state + s, ?_⟩
  rw [h]
  -- words make a ring, in which this holds of any factor
  generalize power k = p
  grind

/-- Some number of movements leads to a state with the lower bits of a given
one. -/
theorem exists_repeat_agree (k : Nat) (r : Random) (state : UInt64) :
    ∃ (n : Nat) (z : UInt64), (n.repeat advance r).state = state + power k * z := by
  induction k with
  | zero =>
    refine ⟨0, r.state - state, ?_⟩
    show r.state = state + 1 * (r.state - state)
    grind
  | succ k ih =>
    obtain ⟨n, z, hn⟩ := ih
    obtain ⟨y, rfl | rfl⟩ := exists_half z
    · refine ⟨n, y, ?_⟩
      rw [hn, power]
      grind
    · -- the next bit differs, and the movements that change it set it right
      obtain ⟨more, w, hw⟩ := exists_state_repeat_eq_add k (n.repeat advance r)
      refine ⟨more + n, y + w + 1, ?_⟩
      rw [repeat_add, hw, hn, power]
      grind

/-- **The generator comes by every state**, from wherever it starts. -/
theorem exists_repeat_eq (r target : Random) : ∃ n : Nat, n.repeat advance r = target := by
  obtain ⟨n, z, hn⟩ := exists_repeat_agree 64 r target.state
  have hpower : power 64 = 0 := by decide +kernel
  rw [hpower, UInt64.zero_mul, UInt64.add_zero] at hn
  refine ⟨n, ?_⟩
  cases h : n.repeat advance r
  rw [h] at hn
  exact congrArg Random.mk hn

/-! ## Numbers in a range -/

/-- A number for a range of a size that is about to be drawn. -/
structure Candidate (size : UInt32) where
  /-- An output times the size. The upper half is the number. -/
  product : UInt64
  /-- The generator after the output. -/
  rest : Random

/-- The candidate of the next output. -/
def candidate (r : Random) (size : UInt32) : Candidate size :=
  ⟨r.output.toUInt64 * size.toUInt64, r.advance⟩

/-- How many lower halves of products are too low: as many as outputs are
left over when each number of the range gets the same share of them. -/
def threshold (size : UInt32) : UInt32 :=
  (0 - size) % size

namespace Candidate

variable {size : UInt32}

/-- The candidate has a lower half that is too low. -/
def GivenUp (c : Candidate size) : Prop :=
  c.product.toUInt32 < threshold size

instance (c : Candidate size) : Decidable c.GivenUp :=
  inferInstanceAs (Decidable (c.product.toUInt32 < threshold size))

/-- The greatest output is kept, whatever the size of the range. -/
theorem not_givenUp_of_output {r : Random} (h : r.output = 0xFFFFFFFF) (size : UInt32) :
    ¬(r.candidate size).GivenUp := by
  have hproduct : (r.candidate size).product.toUInt32 = 0 - size := by
    rw [candidate, h, UInt64.toUInt32_mul, UInt32.toUInt32_toUInt64, UInt32.toUInt32_toUInt64]
    grind
  rw [GivenUp, hproduct, UInt32.not_lt, threshold, UInt32.le_iff_toNat_le, UInt32.toNat_mod]
  exact Nat.mod_le ..

/-- After some number of movements a candidate is kept. -/
theorem exists_not_givenUp (r : Random) (size : UInt32) :
    ∃ n : Nat, ¬((n.repeat advance r).candidate size).GivenUp := by
  obtain ⟨n, hn⟩ := exists_repeat_eq r ⟨0x07FFFE0000000000⟩
  refine ⟨n, not_givenUp_of_output ?_ size⟩
  rw [hn]
  rfl

theorem acc_candidate {n : Nat} {r : Random}
    (h : ¬((n.repeat advance r).candidate size).GivenUp) :
    Acc (fun next last => last.GivenUp ∧ next = last.rest.candidate size)
      (r.candidate size) := by
  induction n generalizing r with
  | zero => exact ⟨_, fun next hnext => absurd hnext.1 h⟩
  | succ n ih =>
    refine ⟨_, fun next hnext => ?_⟩
    rw [repeat_add] at h
    rw [hnext.2]
    exact ih h

/-- A candidate that is given up is followed by the next one, and there is a
last one. -/
instance : WellFoundedRelation (Candidate size) where
  rel next last := last.GivenUp ∧ next = last.rest.candidate size
  wf := by
    refine ⟨fun c => ⟨_, fun next hnext => ?_⟩⟩
    obtain ⟨n, hn⟩ := exists_not_givenUp c.rest size
    rw [hnext.2]
    exact acc_candidate hn

/-- The first candidate that is kept. -/
def settle (c : Candidate size) : Candidate size :=
  if c.GivenUp then settle (c.rest.candidate size) else c
termination_by c
decreasing_by exact ⟨‹_›, trivial⟩

theorem settle_of_not_givenUp {c : Candidate size} (h : ¬c.GivenUp) : c.settle = c := by
  rw [settle, if_neg h]

end Candidate

/-- A number below a size, and the generator after it. The threshold is below
the size, and is only looked at for a lower half that is too. -/
def below (r : Random) (size : UInt32) : UInt32 × Random :=
  let first := r.candidate size
  let kept := if first.product.toUInt32 < size then first.settle else first
  ((kept.product >>> 32).toUInt32, kept.rest)

/-- A number from `start` on and before `stop`, and the generator after it. -/
def inRange (r : Random) (start stop : UInt32) : UInt32 × Random :=
  let (n, rest) := r.below (stop - start)
  (n + start, rest)

/-- **A number below 256 takes one output and is its top byte.** The size
divides 2^32, so no lower half is too low, not even zero. -/
theorem below_byte (r : Random) : r.below 256 = (r.output >>> 24, r.advance) := by
  have hkept : ¬(r.candidate 256).GivenUp := by
    have hthreshold : threshold 256 = 0 := by decide
    rw [Candidate.GivenUp, hthreshold]
    exact UInt32.not_lt_zero
  have htop : ((r.output.toUInt64 * UInt32.toUInt64 256) >>> 32).toUInt32 =
      r.output >>> 24 := by
    have hlt : r.output.toNat < 4294967296 := r.output.toNat_lt
    apply UInt32.toNat_inj.1
    simp [Nat.shiftRight_eq_div_pow]
    omega
  rw [below, Candidate.settle_of_not_givenUp hkept, ite_self]
  exact Prod.ext htop rfl

/-- And so does one from zero on and before 256. -/
theorem inRange_byte (r : Random) : r.inRange 0 256 = (r.output >>> 24, r.advance) := by
  have hsize : (256 : UInt32) - 0 = 256 := by decide
  rw [inRange, hsize, below_byte]
  simp only [UInt32.add_zero]

end Random

end Chip8
