/-!
# Words, digits and addresses

The machine computes with bytes and with 16-bit words. A word holds four
hexadecimal digits, which name registers, keys and small counts, and its
lower twelve bits are an address: every address is reduced to them before
memory is reached, so no word points outside memory.
-/

namespace Chip8

/-- A hexadecimal digit: the number of a register or key, or a count. -/
abbrev Digit := Fin 16

/-- The place of one of the 4096 bytes of memory. -/
abbrev Address := Fin 4096

namespace Digit

/-- The least digit. -/
def zero : Digit := ⟨0, by decide⟩

/-- The lower digit of a byte. -/
def ofByte (b : UInt8) : Digit :=
  Fin.ofNat 16 b.toNat

/-- The digit as a byte. -/
def toByte (d : Digit) : UInt8 :=
  UInt8.ofNat d.val

/-- The digit as a word. -/
def toWord (d : Digit) : UInt16 :=
  UInt16.ofNat d.val

@[simp] theorem val_ofByte (b : UInt8) : (ofByte b).val = b.toNat % 16 := rfl

@[simp] theorem toNat_toByte (d : Digit) : (toByte d).toNat = d.val := by
  simp only [toByte, UInt8.toNat_ofNat']
  omega

@[simp] theorem toNat_toWord (d : Digit) : (toWord d).toNat = d.val := by
  simp only [toWord, UInt16.toNat_ofNat']
  omega

@[simp] theorem ofByte_toByte (d : Digit) : ofByte (toByte d) = d := by
  apply Fin.ext
  simp only [ofByte, toNat_toByte, Fin.val_ofNat]
  omega

end Digit

namespace Address

/-- The lower twelve bits of a word. -/
def ofWord (w : UInt16) : Address :=
  ⟨w.toNat % 4096, Nat.mod_lt _ (by decide)⟩

/-- The address as a word. -/
def toWord (a : Address) : UInt16 :=
  UInt16.ofNat a.val

@[simp] theorem val_ofWord (w : UInt16) : (ofWord w).val = w.toNat % 4096 := rfl

@[simp] theorem toNat_toWord (a : Address) : (toWord a).toNat = a.val := by
  simp only [toWord, UInt16.toNat_ofNat']
  omega

@[simp] theorem ofWord_toWord (a : Address) : ofWord (toWord a) = a := by
  apply Fin.ext
  simp only [val_ofWord, toNat_toWord]
  omega

/-- The cell so many places past the one that a word names, around the end
of memory. -/
def past (start : UInt16) (k : Nat) : Address :=
  ⟨(start.toNat + k) % 4096, Nat.mod_lt _ (by decide)⟩

@[simp] theorem val_past (start : UInt16) (k : Nat) :
    (past start k).val = (start.toNat + k) % 4096 := rfl

/-- Words go around later than memory does, and to the same cell. -/
theorem ofWord_add_ofNat (start : UInt16) (k : Nat) :
    ofWord (start + UInt16.ofNat k) = past start k := by
  apply Fin.ext
  rw [val_ofWord, UInt16.toNat_add, UInt16.toNat_ofNat', val_past]
  omega

end Address

namespace Word

/-- The word of a high and a low byte. -/
def ofBytes (high low : UInt8) : UInt16 :=
  high.toUInt16 <<< 8 ||| low.toUInt16

/-- The digit of a word at a place of the given value: one, 16, 256 or
4096. -/
def digit (w : UInt16) (placeValue : Nat) : Digit :=
  Fin.ofNat 16 (w.toNat / placeValue)

/-- The lower byte of a word. -/
def lowByte (w : UInt16) : UInt8 :=
  w.toUInt8

theorem toNat_lowByte (w : UInt16) : (lowByte w).toNat = w.toNat % 256 :=
  UInt16.toNat_toUInt8 w

/-- The word no step further on. -/
theorem add_ofNat_zero (w : UInt16) : w + UInt16.ofNat 0 = w :=
  UInt16.add_zero w

/-- The word one step further on than another. -/
theorem add_ofNat_succ (w : UInt16) (k : Nat) :
    w + UInt16.ofNat (k + 1) = w + UInt16.ofNat k + 1 := by
  rw [UInt16.ofNat_add, ← UInt16.add_assoc]
  rfl

/-- The first step may be taken apart. -/
theorem add_ofNat_succ_left (w : UInt16) (k : Nat) :
    w + UInt16.ofNat (k + 1) = w + 1 + UInt16.ofNat k := by
  rw [add_ofNat_succ, UInt16.add_assoc, UInt16.add_comm (UInt16.ofNat k), UInt16.add_assoc]

/-- The high byte counts 256 times. -/
theorem toNat_ofBytes (high low : UInt8) :
    (ofBytes high low).toNat = 256 * high.toNat + low.toNat := by
  have hh := high.toNat_lt
  have hl := low.toNat_lt
  have e : (ofBytes high low).toNat = (high.toNat <<< 8) ||| low.toNat := by
    simp only [ofBytes, UInt16.toNat_or, UInt16.toNat_shiftLeft, UInt8.toNat_toUInt16,
      UInt16.reduceToNat, Nat.reduceMod]
    rw [Nat.mod_eq_of_lt]
    rw [Nat.shiftLeft_eq]
    omega
  rw [e, ← Nat.shiftLeft_add_eq_or_of_lt hl, Nat.shiftLeft_eq]
  omega

end Word

end Chip8
