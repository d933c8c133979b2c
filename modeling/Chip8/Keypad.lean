import Chip8.Buffer
import Chip8.Word
/-!
# The keypad

Sixteen keys, each up or down. A key is named by the lower digit of a
byte, since the names come from registers. The whole keypad can also be
given as a mask with one bit for each key.
-/

namespace Chip8

/-- Which keys are down. -/
structure Keypad where
  /-- Whether each key is down. -/
  down : Buffer Bool 16
deriving DecidableEq

namespace Keypad

/-- The number of keys. -/
def count : Nat := 16

/-- The keypad with every key up. -/
def released : Keypad := ⟨Buffer.blank⟩

/-- The keypad with every key let up. -/
def clear (k : Keypad) : Keypad := ⟨k.down.fill false⟩

/-- The keypad with a key put down. -/
def press (k : Keypad) (key : UInt8) : Keypad :=
  ⟨k.down.put (Digit.ofByte key) true⟩

/-- The keypad with a key let up. -/
def release (k : Keypad) (key : UInt8) : Keypad :=
  ⟨k.down.put (Digit.ofByte key) false⟩

/-- Whether a key is down. -/
def isPressed (k : Keypad) (key : UInt8) : Bool :=
  k.down.get (Digit.ofByte key)

/-- The lowest key that is down. -/
def first? (k : Keypad) : Option Digit :=
  k.down.findFinIdx? id

/-- No key is down. -/
def NoneDown (k : Keypad) : Prop :=
  ∀ key : Digit, k.down.get key = false

/-- A key is the lowest that is down. -/
def Lowest (k : Keypad) (key : Digit) : Prop :=
  k.down.get key = true ∧ ∀ lower < key, k.down.get lower = false

instance (k : Keypad) : Decidable k.NoneDown :=
  inferInstanceAs (Decidable (∀ _, _))

instance (k : Keypad) (key : Digit) : Decidable (k.Lowest key) :=
  inferInstanceAs (Decidable (_ ∧ _))

/-- The keypad in which the keys of the set bits are down. -/
def ofMask (mask : UInt16) : Keypad :=
  ⟨Vector.ofFn fun key => mask.toNat.testBit key.val⟩

/-- The mask with the bit of each key that is down. -/
def mask (k : Keypad) : Nat :=
  (List.finRange 16).foldl (fun mask key => mask ||| (k.down.get key).toNat <<< key.val) 0

@[simp] theorem clear_eq (k : Keypad) : k.clear = released := rfl

theorem isPressed_press (k : Keypad) (key other : UInt8) :
    (k.press key).isPressed other =
      (Digit.ofByte key == Digit.ofByte other || k.isPressed other) := by
  simp only [isPressed, press, Buffer.get_put]
  by_cases h : Digit.ofByte key = Digit.ofByte other <;> simp [h]

theorem isPressed_release (k : Keypad) (key other : UInt8) :
    (k.release key).isPressed other =
      (Digit.ofByte key != Digit.ofByte other && k.isPressed other) := by
  simp only [isPressed, release, Buffer.get_put]
  by_cases h : Digit.ofByte key = Digit.ofByte other <;> simp [h]

/-- A key that was up is up again once it is let go, and nothing else has
happened. -/
theorem release_press {k : Keypad} {key : UInt8} (h : k.isPressed key = false) :
    (k.press key).release key = k := by
  have hdown : (k.down.put (Digit.ofByte key) true).put (Digit.ofByte key) false = k.down := by
    apply Buffer.ext_get
    intro other
    rw [Buffer.get_put, Buffer.get_put]
    by_cases hother : Digit.ofByte key = other
    · rw [if_pos hother, ← hother]
      exact h.symm
    · rw [if_neg hother, if_neg hother]
  rw [press, release, hdown]

theorem first?_eq_none_iff {k : Keypad} : k.first? = none ↔ k.NoneDown := by
  rw [first?, Vector.findFinIdx?_eq_none_iff]
  constructor
  · intro h key
    exact Bool.eq_false_iff.2 (h _ (Vector.getElem_mem key.isLt))
  · intro h b hb
    obtain ⟨i, hi, rfl⟩ := Vector.mem_iff_getElem.1 hb
    exact Bool.eq_false_iff.1 (h ⟨i, hi⟩)

/-- The key found first is the lowest that is down. -/
theorem first?_eq_some_iff {k : Keypad} {key : Digit} : k.first? = some key ↔ k.Lowest key := by
  have hsize : k.down.toArray.size = 16 := k.down.size_toArray
  rw [first?, Vector.findFinIdx?, Option.map_eq_some_iff]
  constructor
  · rintro ⟨i, hi, rfl⟩
    obtain ⟨hdown, hlower⟩ := Array.findFinIdx?_eq_some_iff.1 hi
    exact ⟨hdown, fun lower h => Bool.eq_false_iff.2 (hlower (lower.cast hsize.symm) h)⟩
  · rintro ⟨hdown, hlower⟩
    refine ⟨key.cast hsize.symm, Array.findFinIdx?_eq_some_iff.2 ⟨hdown, ?_⟩, rfl⟩
    intro j hj
    exact Bool.eq_false_iff.1 (hlower (j.cast hsize) hj)

@[simp] theorem isPressed_released (key : UInt8) : released.isPressed key = false := by
  simp only [isPressed, released, Buffer.get_blank]
  rfl

end Keypad

end Chip8
