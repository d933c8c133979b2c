import Chip8.Proofs.Footprint
import Chip8.Proofs.Safety
/-!
# Where a cycle goes

The program counter after a cycle, read off the word that was fetched and
the machine before it (`successor?`), with no regard to what the instruction
did to memory meanwhile. Six families of words skip the next word or do not
(`skip?`), and each of them has a counterpart that does the opposite
(`Opposed`).
-/

namespace Chip8

/-! ## Words -/

namespace Instruction

variable {w : UInt16} {i : Instruction}

/-- The first digit of the words of an instruction. -/
def family : Instruction → Nat
  | clearScreen | returnFromCall => 0x0
  | jump _ => 0x1
  | call _ => 0x2
  | skipIfByte _ _ => 0x3
  | skipUnlessByte _ _ => 0x4
  | skipIfEqual _ _ => 0x5
  | setByte _ _ => 0x6
  | addByte _ _ => 0x7
  | arithmetic _ _ _ => 0x8
  | skipUnlessEqual _ _ => 0x9
  | setIndex _ => 0xA
  | jumpOffset _ => 0xB
  | random _ _ => 0xC
  | draw _ _ _ => 0xD
  | skipIfKey _ | skipUnlessKey _ => 0xE
  | getDelay _ | awaitKey _ | setDelay _ | setSound _ | addIndex _ | pointGlyph _
  | storeDecimal _ | storeBlock _ | loadBlock _ => 0xF

/-- The lower byte of the words of an instruction, where its form fixes
it. -/
def fixedByte? : Instruction → Option Nat
  | clearScreen => some 0xE0
  | returnFromCall => some 0xEE
  | skipIfKey _ => some 0x9E
  | skipUnlessKey _ => some 0xA1
  | getDelay _ => some 0x07
  | awaitKey _ => some 0x0A
  | setDelay _ => some 0x15
  | setSound _ => some 0x18
  | addIndex _ => some 0x1E
  | pointGlyph _ => some 0x29
  | storeDecimal _ => some 0x33
  | storeBlock _ => some 0x55
  | loadBlock _ => some 0x65
  | _ => none

/-- Whether an instruction goes on to the next word, whatever it finds. -/
def goesOn : Instruction → Bool
  | returnFromCall | jump _ | call _ | jumpOffset _ | skipIfByte _ _ | skipUnlessByte _ _
  | skipIfEqual _ _ | skipUnlessEqual _ _ | skipIfKey _ | skipUnlessKey _ | awaitKey _ => false
  | _ => true

theorem form_of_ofMiscByte? {x : Digit} {byte : UInt8} (h : ofMiscByte? x byte = some i) :
    i.family = 0xF ∧ i.fixedByte? = some byte.toNat := by
  unfold ofMiscByte? at h
  split at h
  case h_10 => cases h
  all_goals
    rename_i hbyte
    cases h
    exact ⟨rfl, congrArg some hbyte.symm⟩

theorem form_of_ofFields? {f : Fields} (h : ofFields? f = some i) :
    f.family.val = i.family ∧ ∀ b ∈ i.fixedByte?, f.byte.toNat = b := by
  unfold ofFields? at h
  split at h
  case h_9 hfamily =>
    obtain ⟨op, -, rfl⟩ := Option.map_eq_some_iff.1 h
    exact ⟨hfamily, nofun⟩
  case h_16 hfamily =>
    obtain ⟨hi, hbyte⟩ := form_of_ofMiscByte? h
    refine ⟨hfamily.trans hi.symm, fun b hb => ?_⟩
    rw [hbyte] at hb
    exact Option.some.inj hb
  case h_1 hfamily | h_15 hfamily =>
    split at h
    case h_3 => cases h
    all_goals
      rename_i hbyte
      cases h
      exact ⟨hfamily, fun b hb => hbyte.trans (Option.some.inj hb)⟩
  case h_17 => cases h
  all_goals
    rename_i hfamily
    cases h
    exact ⟨hfamily, nofun⟩

/-- **A word begins with the digit of its instruction**, and ends in its
lower byte where that is fixed. -/
theorem form_of_decode? (h : decode? w = some i) :
    w.toNat / 4096 = i.family ∧ ∀ b ∈ i.fixedByte?, w.toNat % 256 = b := by
  have hw := w.toNat_lt
  obtain ⟨hfamily, hbyte⟩ := form_of_ofFields? h
  have hfirst : (Fields.ofWord w).family.val = w.toNat / 4096 := by
    simp only [Fields.ofWord, Word.digit, Fin.val_ofNat]
    omega
  have hlow : (Fields.ofWord w).byte.toNat = w.toNat % 256 := Word.toNat_lowByte w
  exact ⟨hfirst.symm.trans hfamily, fun b hb => hlow.symm.trans (hbyte b hb)⟩

/-- The words `00EE`, whatever their third digit is, are returns. -/
theorem eq_returnFromCall_of_decode? (h : decode? w = some i) (hfirst : w.toNat / 4096 = 0x0)
    (hlow : w.toNat % 256 = 0xEE) : i = returnFromCall := by
  obtain ⟨hfamily, hbyte⟩ := form_of_decode? h
  rw [hfirst] at hfamily
  cases i with
  | returnFromCall => rfl
  | clearScreen =>
    have := hbyte 0xE0 rfl
    omega
  | _ => cases hfamily

end Instruction

namespace Machine

variable {m n : Machine} {i : Instruction} {w w' : UInt16}

/-! ## The table -/

/-- **Whether a word skips the next one**, for the six forms of words that
may. -/
def skip? (m : Machine) (w : UInt16) : Option Bool :=
  let vx := m.v (Word.digit w 256)
  let vy := m.v (Word.digit w 16)
  match w.toNat / 4096, w.toNat % 256 with
  | 0x3, byte => some (vx.toNat == byte)
  | 0x4, byte => some (vx.toNat != byte)
  | 0x5, _ => some (vx == vy)
  | 0x9, _ => some (vx != vy)
  | 0xE, 0x9E => some (m.keypad.isPressed vx)
  | 0xE, 0xA1 => some !(m.keypad.isPressed vx)
  | _, _ => none

/-- The word that lies a number of bytes further on, modulo 2^16. -/
def bytesOn (m : Machine) (bytes : Nat) : Nat :=
  (m.pc.toNat + bytes) % 65536

/-- **Where the word at the program counter leads**: a jump or call to its
lower twelve bits, a jump with an offset as far past them as V0 says, a
return to the innermost address kept, and a wait with no key down back to
itself. Any other word leads to the next one, or past it if it skips. -/
def successor? (m : Machine) : Option Nat :=
  let w := m.fetch.toNat
  match m.skip? m.fetch with
  | some skips => some (m.bytesOn (if skips then 4 else 2))
  | none =>
    match w / 4096, w % 256 with
    | 0x0, 0xEE => m.stack.frames.getLast?.map UInt16.toNat
    | 0x1, _ => some (w % 4096)
    | 0x2, _ => some (w % 4096)
    | 0xB, _ => some (w % 4096 + (m.v Digit.zero).toNat)
    | 0xF, 0x0A => some (if m.keypad.NoneDown then m.pc.toNat else m.bytesOn 2)
    | _, _ => some (m.bytesOn 2)

/-! ## The program counter after the parts of instructions -/

theorem pc_next (m : Machine) : m.next.pc = m.pc + 2 := rfl

theorem pc_compute (m : Machine) (f : Arithmetic) (x y : Digit) :
    (m.compute f x y).pc = m.pc := by
  obtain ⟨v, hcompute⟩ := m.compute_eq_withV f x y
  rw [hcompute]
  rfl

theorem pc_advanceIndex (m : Machine) (x : Digit) (advances : Bool) :
    (m.advanceIndex x advances).pc = m.pc := by
  cases advances <;> rfl

theorem pc_storeBlock (m : Machine) (x : Digit) : (m.storeBlock x).pc = m.pc := by
  rw [storeBlock, pc_advanceIndex]
  rfl

theorem pc_loadBlock (m : Machine) (x : Digit) : (m.loadBlock x).pc = m.pc := by
  rw [loadBlock, pc_advanceIndex]
  simp only [pc, Registers.replaceUpTo]

theorem toNat_pc_skipIf (m : Machine) (condition : Bool) :
    (m.skipIf condition).pc.toNat = m.bytesOn (if condition then 4 else 2) := by
  cases condition <;> rfl

theorem toNat_pc_awaitKey (m : Machine) (x : Digit) :
    (m.awaitKey x).pc.toNat = if m.keypad.NoneDown then m.pc.toNat else m.bytesOn 2 := by
  unfold awaitKey
  cases hkey : m.keypad.first? with
  | none =>
    rw [if_pos (Keypad.first?_eq_none_iff.1 hkey)]
    rfl
  | some key =>
    have hdown : ¬m.keypad.NoneDown := by
      rw [← Keypad.first?_eq_none_iff, hkey]
      exact nofun
    rw [if_neg hdown]
    rfl

theorem toNat_pc_goTo (m : Machine) (target : Address) :
    (m.goTo (Address.toWord target)).pc.toNat = target.val :=
  Address.toNat_toWord target

theorem toNat_pc_jumpOffset (target : Address) (b : UInt8) :
    (m.goTo (Address.toWord target + b.toUInt16)).pc.toNat = target.val + b.toNat := by
  have hb := b.toNat_lt
  have hpc : (m.goTo (Address.toWord target + b.toUInt16)).pc =
      Address.toWord target + b.toUInt16 := rfl
  rw [hpc, UInt16.toNat_add, Address.toNat_toWord, UInt8.toNat_toUInt16]
  omega

/-! ## Instructions -/

/-- A register holds the lower byte of a word if it holds the same number. -/
theorem beq_lowByte (b : UInt8) (w : UInt16) :
    (b == Word.lowByte w) = (b.toNat == w.toNat % 256) := by
  rw [Bool.eq_iff_iff, beq_iff_eq, beq_iff_eq, ← UInt8.toNat_inj, Word.toNat_lowByte]

theorem pc_of_execute_of_goesOn (hgo : i.goesOn = true) (h : m.execute i = .ok n) :
    n.pc = m.pc + 2 := by
  cases i with
  | arithmetic f x y =>
    obtain rfl := Except.ok.inj h
    rw [pc_next, pc_compute]
  | storeBlock x =>
    obtain rfl := Except.ok.inj h
    rw [pc_next, pc_storeBlock]
  | loadBlock x =>
    obtain rfl := Except.ok.inj h
    rw [pc_next, pc_loadBlock]
  | returnFromCall | jump _ | call _ | jumpOffset _ | skipIfByte _ _ | skipUnlessByte _ _
  | skipIfEqual _ _ | skipUnlessEqual _ _ | skipIfKey _ | skipUnlessKey _ | awaitKey _ =>
    cases hgo
  | _ =>
    obtain rfl := Except.ok.inj h
    rfl

/-- The table has nothing to say on the words of these instructions. -/
theorem successor?_of_goesOn (hi : Instruction.decode? m.fetch = some i)
    (hgo : i.goesOn = true) : m.successor? = some (m.bytesOn 2) := by
  obtain ⟨hfamily, hbyte⟩ := Instruction.form_of_decode? hi
  cases i with
  | setByte _ _ | addByte _ _ | arithmetic _ _ _ | setIndex _ | random _ _ | draw _ _ _ =>
    simp only [successor?, skip?, hfamily, Instruction.family]
  | clearScreen | getDelay _ | setDelay _ | setSound _ | addIndex _ | pointGlyph _
  | storeDecimal _ | storeBlock _ | loadBlock _ =>
    have hlow := hbyte _ rfl
    simp only [successor?, skip?, hfamily, Instruction.family, hlow]
  | _ => cases hgo

/-- **The program counter after an instruction** is where its word leads. -/
theorem successor?_of_execute (hi : Instruction.decode? m.fetch = some i)
    (h : m.execute i = .ok n) : m.successor? = some n.pc.toNat := by
  have htaken := Instruction.takenFrom_of_decode? hi
  obtain ⟨hfamily, hbyte⟩ := Instruction.form_of_decode? hi
  cases i with
  | returnFromCall =>
    have hlow := hbyte _ rfl
    simp only [successor?, skip?, hfamily, Instruction.family, hlow]
    rw [of_returnFromCall_eq_ok h, List.getLast?_concat, Option.map_some]
  | jump target =>
    obtain rfl := Except.ok.inj h
    obtain rfl := htaken
    simp only [successor?, skip?, hfamily, Instruction.family, toNat_pc_goTo]
    rfl
  | call target =>
    obtain rfl := htaken
    simp only [successor?, skip?, hfamily, Instruction.family]
    rw [(of_call_eq_ok h).2, Address.toNat_toWord]
    rfl
  | jumpOffset target =>
    obtain rfl := Except.ok.inj h
    obtain rfl := htaken
    simp only [successor?, skip?, hfamily, Instruction.family, toNat_pc_jumpOffset]
    rfl
  | skipIfByte x byte | skipUnlessByte x byte =>
    obtain rfl := Except.ok.inj h
    obtain ⟨rfl, rfl⟩ := htaken
    rw [toNat_pc_skipIf]
    simp only [successor?, skip?, hfamily, Instruction.family, Fields.ofWord, beq_lowByte, bne]
  | skipIfEqual x y | skipUnlessEqual x y =>
    obtain rfl := Except.ok.inj h
    obtain ⟨rfl, rfl⟩ := htaken
    rw [toNat_pc_skipIf]
    simp only [successor?, skip?, hfamily, Instruction.family]
    rfl
  | skipIfKey x | skipUnlessKey x =>
    obtain rfl := Except.ok.inj h
    obtain rfl := htaken
    have hlow := hbyte _ rfl
    rw [toNat_pc_skipIf]
    simp only [successor?, skip?, hfamily, Instruction.family, hlow]
    rfl
  | awaitKey x =>
    obtain rfl := Except.ok.inj h
    have hlow := hbyte _ rfl
    simp only [successor?, skip?, hfamily, Instruction.family, hlow, toNat_pc_awaitKey]
  | _ =>
    rw [successor?_of_goesOn hi rfl, pc_of_execute_of_goesOn rfl h]
    rfl

/-! ## Opposite words -/

/-- **Two words that skip under opposite conditions**: the same operands
behind the digits 3 and 4, the same registers behind 5 and 9, or the same
key with its two endings. -/
inductive Opposed (w w' : UInt16) : Prop
  | byte (h : w.toNat / 4096 = 0x3) (h' : w'.toNat / 4096 = 0x4)
      (same : w.toNat % 4096 = w'.toNat % 4096) : Opposed w w'
  | registers (h : w.toNat / 4096 = 0x5) (h' : w'.toNat / 4096 = 0x9)
      (same : w.toNat / 16 % 256 = w'.toNat / 16 % 256) : Opposed w w'
  | key (h : w.toNat / 4096 = 0xE) (hlow : w.toNat % 256 = 0x9E)
      (h' : w'.toNat / 4096 = 0xE) (hlow' : w'.toNat % 256 = 0xA1)
      (same : w.toNat / 256 = w'.toNat / 256) : Opposed w w'

/-- Whether a word skips is up to the registers and the keypad. -/
theorem skip?_congr {k : Machine} (hr : k.registers = m.registers) (hk : k.keypad = m.keypad)
    (w : UInt16) : k.skip? w = m.skip? w := by
  have hv (r : Digit) : k.v r = m.v r := by rw [v, hr, v]
  simp only [skip?, hv, hk]

/-- Of two opposite words exactly one skips. -/
theorem skip?_of_opposed (m : Machine) (h : Opposed w w') :
    ∃ skips, m.skip? w = some skips ∧ m.skip? w' = some !skips := by
  have hdigit (placeValue : Nat)
      (hsame : w.toNat / placeValue % 16 = w'.toNat / placeValue % 16) :
      Word.digit w placeValue = Word.digit w' placeValue := Fin.ext hsame
  cases h with
  | byte h h' same =>
    have hx := hdigit 256 (by omega)
    have hbyte : w.toNat % 256 = w'.toNat % 256 := by omega
    refine ⟨(m.v (Word.digit w 256)).toNat == w.toNat % 256, ?_, ?_⟩
    · simp only [skip?, h]
    · simp only [skip?, h', hx, hbyte, bne]
  | registers h h' same =>
    have hx := hdigit 256 (by omega)
    have hy := hdigit 16 (by omega)
    refine ⟨m.v (Word.digit w 256) == m.v (Word.digit w 16), ?_, ?_⟩
    · simp only [skip?, h]
    · simp only [skip?, h', hx, hy, bne]
  | key h hlow h' hlow' same =>
    have hx := hdigit 256 (by omega)
    refine ⟨m.keypad.isPressed (m.v (Word.digit w 256)), ?_, ?_⟩
    · simp only [skip?, h, hlow]
    · simp only [skip?, h', hlow', hx]

/-! ## Cycles -/

/-- A cycle at a word that may skip goes two words on if it does, and one if
not. -/
theorem pc_of_skip? {skips : Bool} (hskip : m.skip? m.fetch = some skips)
    (h : m.successor? = some n.pc.toNat) : n.pc = if skips then m.pc + 4 else m.pc + 2 := by
  simp only [successor?, hskip, Option.some.injEq] at h
  rw [← UInt16.toNat_inj, ← h]
  cases skips <;> rfl

/-- **A cycle goes where the instruction table says.** The program counter
after a cycle that goes through is the successor that the word fetched
before it has on the machine before it, also when the instruction wrote over
that word or the next. A return takes that address from the stack. A jump
with an offset ends no further than 10FE. A word that may skip goes on by
two words exactly when its condition held before, and by one exactly when it
did not; and the opposite word, with the same registers and the same keys,
does the opposite. -/
theorem pc_of_cycle (h : m.cycle = (.ok (), n)) :
    m.successor? = some n.pc.toNat ∧
    (m.fetch.toNat / 4096 = 0x0 → m.fetch.toNat % 256 = 0xEE →
      m.stack.frames = n.stack.frames ++ [n.pc]) ∧
    (m.fetch.toNat / 4096 = 0xB → n.pc.toNat ≤ 0x10FE) ∧
    (∀ skips, m.skip? m.fetch = some skips →
      (n.pc = m.pc + 4 ↔ skips = true) ∧ (n.pc = m.pc + 2 ↔ skips = false)) ∧
    ∀ k l : Machine, k.registers = m.registers → k.keypad = m.keypad →
      Opposed m.fetch k.fetch → k.cycle = (.ok (), l) →
      (n.pc = m.pc + 4 ∧ l.pc = m.pc + 2) ∨ (n.pc = m.pc + 2 ∧ l.pc = m.pc + 4) := by
  have hapart : m.pc + 4 ≠ m.pc + 2 := fun e =>
    absurd ((UInt16.add_right_inj m.pc).1 e) (by decide)
  obtain ⟨-, i, hi, hexecute⟩ := of_cycle_eq_ok h
  have hn := successor?_of_execute hi hexecute
  refine ⟨hn, ?_, ?_, ?_, ?_⟩
  · intro hfirst hlow
    obtain rfl := Instruction.eq_returnFromCall_of_decode? hi hfirst hlow
    exact of_returnFromCall_eq_ok hexecute
  · intro hfamily
    have hv := (m.v Digit.zero).toNat_lt
    simp only [successor?, skip?, hfamily, Option.some.injEq] at hn
    omega
  · intro skips hskips
    rw [pc_of_skip? hskips hn]
    cases skips
    · simp [hapart.symm]
    · simp [hapart]
  · intro k l hregisters hkeypad hopposed hl
    obtain ⟨-, j, hj, hexecute'⟩ := of_cycle_eq_ok hl
    obtain ⟨skips, hm, hk⟩ := m.skip?_of_opposed hopposed
    rw [← skip?_congr hregisters hkeypad] at hk
    have hpc : k.pc = m.pc := congrArg Registers.pc hregisters
    rw [pc_of_skip? hm hn, pc_of_skip? hk (successor?_of_execute hj hexecute'), hpc]
    cases skips
    · exact .inr ⟨rfl, rfl⟩
    · exact .inl ⟨rfl, rfl⟩

/-- A machine at the last word of memory, about to store four registers over
that word and the one behind it, which lies at the start of memory. -/
def overwriter : Machine :=
  { powerOn 0 Profile.standard with
    memory := Memory.blank.writeBlock 0x0FFE [0xF3, 0x55]
    registers := {
      v := #v[0xFF, 0x00, 0xBF, 0xFF, 0, 0, 0, 0, 0, 0, 0, 0, 0, 0, 0, 0]
      index := 0x0FFE
      pc := 0xFFFE
      delay := 0
      sound := 0 } }

/-- The program counter begins anew behind the word that is gone, and the
jump that the store has put there leads past the twelve bits of an
address. -/
theorem pc_of_cycle_overwriter :
    let m := overwriter
    ∃ n k : Machine, m.cycle = (.ok (), n) ∧ n.pc.toNat = 0x0000 ∧ n.fetch = 0xBFFF ∧
      n.memory.readWord m.pc = 0xFF00 ∧ n.cycle = (.ok (), k) ∧ k.pc.toNat = 0x10FE := by
  intro m
  obtain ⟨hok, hgone, hjump, hok', hm, hn⟩ : m.cycle.1 = .ok () ∧
      m.cycle.2.memory.readWord m.pc = 0xFF00 ∧ m.cycle.2.fetch = 0xBFFF ∧
      m.cycle.2.cycle.1 = .ok () ∧ m.successor? = some 0x0000 ∧
      m.cycle.2.successor? = some 0x10FE := by decide +kernel
  have hcycle : m.cycle = (.ok (), m.cycle.2) := cycle_eq_ok hok
  generalize m.cycle.2 = n at hcycle hgone hjump hok' hn
  have hcycle' : n.cycle = (.ok (), n.cycle.2) := cycle_eq_ok hok'
  have hpc := (pc_of_cycle hcycle).1
  have hpc' := (pc_of_cycle hcycle').1
  rw [hm, Option.some.injEq] at hpc
  rw [hn, Option.some.injEq] at hpc'
  exact ⟨n, n.cycle.2, hcycle, hpc.symm, hjump, hgone, hcycle', hpc'.symm⟩

end Machine

end Chip8
