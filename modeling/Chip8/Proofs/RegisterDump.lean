import Chip8.Machine.Action
import Chip8.Proofs.Hexadecimal
import Chip8.Proofs.Separators
/-!
# What the register dump tells

The parts of the dump are found from the left: a number is over at the first
blank, which no number has, and the call stack at the first closing bracket
(`of_append_cons_eq`). Inside the brackets the frames are parted by commas and
the registers by blanks, and every number is known by its digits in either
base. So the dump shows the registers, the timers and the calls in progress,
all of them and nothing else (`dump_identifies`).
-/

namespace Chip8

/-! ## Numbers -/

namespace Hex

variable {width n n' : Nat}

theorem upper_inj (h : upper width n = upper width n') : n = n' := by
  have hread := value?_upper width n
  rw [h, value?_upper] at hread
  exact (Option.some.inj hread).symm

theorem lower_inj (h : lower width n = lower width n') : n = n' := by
  have hread := value?_lower width n
  rw [h, value?_lower] at hread
  exact (Option.some.inj hread).symm

theorem literal_inj (h : literal width n = literal width n') : n = n' :=
  lower_inj ((String.append_right_inj "0x").mp h)

theorem blank_not_mem_literal (width n : Nat) : ' ' ∉ (literal width n).toList :=
  fun h => (by decide : ' ' ∉ 'x' :: lowerDigits) (mem_literal h)

end Hex

/-- A decimal number has nothing but digits. -/
theorem Decimal.not_mem_toString {c : Char} (h : c.isDigit = false) (n : Nat) :
    c ∉ (toString n).toList := by
  rw [Nat.toString_eq_repr, Nat.toList_repr]
  intro hmem
  have hdigit := Nat.isDigit_of_mem_toDigits (by decide) (by decide) hmem
  rw [h] at hdigit
  cases hdigit

theorem Decimal.toString_inj {n n' : Nat} (h : toString n = toString n') : n = n' := by
  have hdigits := congrArg String.toList h
  rw [Nat.toString_eq_repr, Nat.toString_eq_repr, Nat.toList_repr, Nat.toList_repr] at hdigits
  rw [← Nat.ofDigitChars_ten_toDigits (n := n), hdigits, Nat.ofDigitChars_ten_toDigits]

/-- The slots above the depth are in no frame. -/
theorem CallStack.frames_congr {s : CallStack} {slots : Buffer UInt16 16}
    (h : ∀ k : Fin 16, k.val < s.depth → slots.get k = s.slots.get k) :
    frames { s with slots := slots } = s.frames := by
  apply List.ext_getElem
  · rw [length_frames, length_frames]
  · intro k hk _
    rw [length_frames] at hk
    have hk16 : k < 16 := Nat.lt_of_lt_of_le hk s.depth_le
    simp only [frames, List.getElem_take, Vector.getElem_toList]
    exact h ⟨k, hk16⟩ hk

namespace Machine

variable {m m' : Machine}

/-! ## The brackets -/

/-- The frames between the brackets. -/
def framesText (m : Machine) : List Char :=
  [',', ' '].intercalate (m.stack.frames.map fun addr => (Hex.lower 1 addr.toNat).toList)

theorem bracket_not_mem_framesText (m : Machine) : ']' ∉ m.framesText := by
  intro h
  rcases mem_of_mem_intercalate h with h | ⟨part, hpart, h⟩
  · exact absurd h (by decide)
  · obtain ⟨addr, -, rfl⟩ := List.mem_map.mp hpart
    exact (by decide : ']' ∉ Hex.lowerDigits) (Hex.mem_lower h)

/-- **The frames are known from their text**, and how many they are. -/
theorem framesText_inj (h : m.framesText = m'.framesText) : m.stack.frames = m'.stack.frames := by
  have hpart (m : Machine) : ∀ part ∈ m.stack.frames.map fun addr =>
      (Hex.lower 1 addr.toNat).toList, IsPart part := by
    intro part hpart
    obtain ⟨addr, -, rfl⟩ := List.mem_map.mp hpart
    refine ⟨?_, fun hc => (by decide : ',' ∉ Hex.lowerDigits) (Hex.mem_lower hc)⟩
    rw [Hex.lower, String.toList_ofList]
    exact Hex.padded_ne_nil 1 addr.toNat
  have hparts := commaSeparated_inj (hpart m) (hpart m') h
  refine (List.map_inj_right fun addr addr' haddr => ?_).mp hparts
  exact UInt16.toNat_inj.mp (Hex.lower_inj (String.toList_injective haddr))

/-- The byte registers between the brackets. -/
def bytesText (m : Machine) : List Char :=
  [' '].intercalate (m.registers.v.toList.map fun b => (Hex.upper 2 b.toNat).toList)

/-- **The byte registers are known from their text.** -/
theorem bytesText_inj (h : m.bytesText = m'.bytesText) : m.registers.v = m'.registers.v := by
  have hread (m : Machine) : m.bytesText.splitOn ' ' =
      m.registers.v.toList.map fun b => (Hex.upper 2 b.toNat).toList := by
    refine List.splitOn_intercalate ' ' (fun part hpart => ?_) ?_
    · obtain ⟨b, -, rfl⟩ := List.mem_map.mp hpart
      exact fun hc => (by decide : ' ' ∉ Hex.upperDigits) (Hex.mem_upper hc)
    · intro hnil
      have hlength := congrArg List.length hnil
      rw [List.length_map, Vector.length_toList] at hlength
      cases hlength
  have hparts := congrArg (List.splitOn ' ') h
  rw [hread, hread] at hparts
  refine Vector.toList_inj.mp ((List.map_inj_right fun b b' hb => ?_).mp hparts)
  exact UInt8.toNat_inj.mp (Hex.upper_inj (String.toList_injective hb))

/-! ## The dump -/

-- stated by hand: the equation that `rw [dump]` would make takes seconds
theorem dump_eq (m : Machine) :
    m.dump = "PC=" ++ Hex.literal 3 m.pc.toNat ++ " I=" ++ Hex.literal 3 m.index.toNat ++
      " DT=" ++ toString m.registers.delay.toNat ++ " ST=" ++ toString m.registers.sound.toNat ++
      " STACK=" ++ m.stackText ++ " V=" ++ m.registersText := rfl

/-- The dump, part by part. -/
theorem toList_dump (m : Machine) : m.dump.toList =
    "PC=".toList ++ ((Hex.literal 3 m.pc.toNat).toList ++ ' ' ::
    ("I=".toList ++ ((Hex.literal 3 m.index.toNat).toList ++ ' ' ::
    ("DT=".toList ++ ((toString m.registers.delay.toNat).toList ++ ' ' ::
    ("ST=".toList ++ ((toString m.registers.sound.toNat).toList ++ ' ' ::
    ("STACK=[".toList ++ (m.framesText ++ ']' ::
    (" V=[".toList ++ (m.bytesText ++ [']']))))))))))) := by
  simp [dump_eq, stackText, registersText, framesText, bytesText, String.toList_intercalate,
    Function.comp_def]

/-- **Equal dumps show equal registers, timers and calls.** -/
theorem of_dump_eq (h : m.dump = m'.dump) :
    m.pc = m'.pc ∧ m.index = m'.index ∧ m.registers.delay = m'.registers.delay ∧
      m.registers.sound = m'.registers.sound ∧ m.stack.frames = m'.stack.frames ∧
      m.registers.v = m'.registers.v := by
  have h := congrArg String.toList h
  rw [toList_dump, toList_dump] at h
  obtain ⟨hpc, h⟩ := of_append_cons_eq (Hex.blank_not_mem_literal 3 _)
    (Hex.blank_not_mem_literal 3 _) (List.append_cancel_left h)
  obtain ⟨hindex, h⟩ := of_append_cons_eq (Hex.blank_not_mem_literal 3 _)
    (Hex.blank_not_mem_literal 3 _) (List.append_cancel_left h)
  obtain ⟨hdelay, h⟩ := of_append_cons_eq (Decimal.not_mem_toString rfl _)
    (Decimal.not_mem_toString rfl _) (List.append_cancel_left h)
  obtain ⟨hsound, h⟩ := of_append_cons_eq (Decimal.not_mem_toString rfl _)
    (Decimal.not_mem_toString rfl _) (List.append_cancel_left h)
  obtain ⟨hframes, h⟩ := of_append_cons_eq m.bracket_not_mem_framesText
    m'.bracket_not_mem_framesText (List.append_cancel_left h)
  have hbytes := List.append_cancel_right (List.append_cancel_left h)
  exact ⟨UInt16.toNat_inj.mp (Hex.literal_inj (String.toList_injective hpc)),
    UInt16.toNat_inj.mp (Hex.literal_inj (String.toList_injective hindex)),
    UInt8.toNat_inj.mp (Decimal.toString_inj (String.toList_injective hdelay)),
    UInt8.toNat_inj.mp (Decimal.toString_inj (String.toList_injective hsound)),
    framesText_inj hframes, bytesText_inj hbytes⟩

/-- The dump looks at nothing else. -/
theorem dump_congr (hpc : m.pc = m'.pc) (hindex : m.index = m'.index)
    (hdelay : m.registers.delay = m'.registers.delay)
    (hsound : m.registers.sound = m'.registers.sound)
    (hframes : m.stack.frames = m'.stack.frames) (hv : m.registers.v = m'.registers.v) :
    m.dump = m'.dump := by
  simp only [dump_eq, stackText, registersText, hpc, hindex, hdelay, hsound, hframes, hv]

/-- **The register dump identifies the registers.** Two machines have one dump
exactly when the program counter, the index register, both timers, the calls
in progress and all byte registers are equal; and a slot of the call stack
above its depth never shows, whatever an earlier call left in it. -/
theorem dump_identifies (m m' : Machine) :
    (m.dump = m'.dump ↔
      m.pc = m'.pc ∧ m.index = m'.index ∧ m.registers.delay = m'.registers.delay ∧
      m.registers.sound = m'.registers.sound ∧ m.stack.frames = m'.stack.frames ∧
      ∀ x, m.v x = m'.v x) ∧
    ∀ slots : Buffer UInt16 16,
      (∀ k : Fin 16, k.val < m.stack.depth → slots.get k = m.stack.slots.get k) →
      dump { m with stack := { m.stack with slots := slots } } = m.dump := by
  refine ⟨⟨fun h => ?_, fun ⟨hpc, hindex, hdelay, hsound, hframes, hv⟩ =>
    dump_congr hpc hindex hdelay hsound hframes (Buffer.ext_get hv)⟩, fun slots h => ?_⟩
  · obtain ⟨hpc, hindex, hdelay, hsound, hframes, hv⟩ := of_dump_eq h
    exact ⟨hpc, hindex, hdelay, hsound, hframes, fun x => congrArg (fun v => v.get x) hv⟩
  · refine dump_congr rfl rfl rfl rfl (CallStack.frames_congr h) rfl

/-- A machine in a call, after a call made from there has returned. -/
def returned : Machine :=
  (powerOn 0 Profile.standard).run
    [.load [0x22, 0x04, 0x00, 0x00, 0x22, 0x08, 0x00, 0x00, 0x00, 0xEE], .cycle, .cycle, .cycle]

/-- Its call stack without the address that the return has left behind. -/
def returnedSlots : Buffer UInt16 16 :=
  returned.stack.slots.put ⟨1, by decide⟩ 0

theorem returned_stack :
    returned.stack.frames = [0x202] ∧ returned.stack.slots.get ⟨1, by decide⟩ = 0x206 ∧
      ∀ k : Fin 16, k.val < returned.stack.depth →
        returnedSlots.get k = returned.stack.slots.get k := by
  decide +kernel

theorem dump_identifies_returned :
    (∀ k : Fin 16, k.val < returned.stack.depth →
      returnedSlots.get k = returned.stack.slots.get k) ∧
    dump { returned with stack := { returned.stack with slots := returnedSlots } } =
      returned.dump :=
  ⟨returned_stack.2.2, (dump_identifies returned returned).2 returnedSlots returned_stack.2.2⟩

end Machine

end Chip8
