import Chip8.Instruction.Footprint
import Chip8.Proofs.History
/-!
# What an instruction leaves alone

An instruction that goes through writes inside its footprint and nowhere
else: every cell, every register and every other part of the machine that
is not its to write holds afterwards what it held before. The parts of an
instruction come first, each with what it writes, then the instructions
one by one (`framed_of_execute`), and then the cycle that executes one
(`framed_of_cycle`).
-/

namespace Chip8

/-- Writing a block of bytes leaves the cells outside it alone. -/
theorem Memory.get_writeBlock_or (m : Memory) (start : UInt16) (block : List UInt8)
    (cell : Address) :
    (m.writeBlock start block).cells.get cell = m.cells.get cell ∨
      Address.InRow start block.length cell := by
  induction block generalizing m start with
  | nil => exact .inl rfl
  | cons b bs ih =>
    rw [writeBlock, List.length_cons, Address.inRow_succ_iff]
    rcases ih (m.write start b) (start + 1) with h | h
    · by_cases hfirst : Address.ofWord start = cell
      · exact .inr (.inl hfirst.symm)
      · refine .inl (h.trans ?_)
        rw [write, Buffer.get_put, if_neg hfirst]
    · exact .inr (.inr h)

namespace Machine

variable {m n : Machine} {i : Instruction}

/-- **A machine after an instruction, held against the machine before it**:
each part is as it was, unless the instruction may write it. -/
structure Framed (m : Machine) (i : Instruction) (n : Machine) : Prop where
  memory : ∀ cell, n.memory.cells.get cell = m.memory.cells.get cell ∨ i.WritesCell m.index cell
  v : ∀ r, n.v r = m.v r ∨ i.WritesRegister r
  index : n.index = m.index ∨ i.WritesIndex m.profile
  delay : n.registers.delay = m.registers.delay ∨ ∃ x, i = .setDelay x
  sound : n.registers.sound = m.registers.sound ∨ ∃ x, i = .setSound x
  stack : n.stack = m.stack ∨ i = .returnFromCall ∨ ∃ target, i = .call target
  keypad : n.keypad = m.keypad
  display : n.display = m.display ∨ i.writesScreen = true
  redraw : n.redraw = (i.writesScreen || m.redraw)
  awaitingKey : n.awaitingKey = m.awaitingKey ∨ ∃ x, i = .awaitKey x
  fault : n.fault = m.fault
  random : n.random = m.random ∨ ∃ x mask, i = .random x mask
  seed : n.seed = m.seed
  profile : n.profile = m.profile

/-! ## The parts of instructions -/

/-- To go elsewhere, and to raise the redraw flag for the screen, is to leave
all else alone. -/
theorem framed_goTo (m : Machine) (i : Instruction) (pc : UInt16) :
    m.Framed i ({ m with redraw := i.writesScreen || m.redraw }.goTo pc) where
  memory _ := .inl rfl
  v _ := .inl rfl
  index := .inl rfl
  delay := .inl rfl
  sound := .inl rfl
  stack := .inl rfl
  keypad := rfl
  display := .inl rfl
  redraw := rfl
  awaitingKey := .inl rfl
  fault := rfl
  random := .inl rfl
  seed := rfl
  profile := rfl

/-- A byte put into a register leaves the others alone. -/
theorem v_setV_or (m : Machine) (x r : Digit) (b : UInt8) :
    (m.setV x b).v r = m.v r ∨ r = x := by
  by_cases h : x = r
  · exact .inr h.symm
  · exact .inl ((m.registers.v_set x r b).trans (if_neg h))

/-- An operation has a flag to write exactly when it gives one. -/
theorem isSome_apply (f : Arithmetic) (p : Profile) (a b : UInt8) :
    (f.apply p a b).2.isSome = f.writesFlag := by
  cases f <;> rfl

/-- Arithmetic writes its target, and the flag if it has one. -/
theorem v_compute_or (m : Machine) (f : Arithmetic) (x y r : Digit) :
    (m.compute f x y).v r = m.v r ∨ r = x ∨ (f.writesFlag = true ∧ r = Registers.flag) := by
  have hflag := isSome_apply f m.profile (m.v x) (m.v y)
  unfold compute
  rcases happly : f.apply m.profile (m.v x) (m.v y) with ⟨result, _ | on⟩
  · rcases m.v_setV_or x r (Word.lowByte result) with h | h
    · exact .inl h
    · exact .inr (.inl h)
  · -- the flag goes over the target when both are one register
    rcases (m.setV x (Word.lowByte result)).v_setV_or Registers.flag r (if on then 1 else 0)
      with h | h
    · rcases m.v_setV_or x r (Word.lowByte result) with h' | h'
      · exact .inl (h.trans h')
      · exact .inr (.inl h')
    · rw [happly] at hflag
      exact .inr (.inr ⟨hflag.symm, h⟩)

/-- Arithmetic leaves all but the byte registers alone. -/
theorem compute_eq_withV (m : Machine) (f : Arithmetic) (x y : Digit) :
    ∃ v, m.compute f x y = { m with registers := { m.registers with v := v } } := by
  unfold compute
  rcases f.apply m.profile (m.v x) (m.v y) with ⟨result, _ | on⟩
  · exact ⟨_, rfl⟩
  · exact ⟨_, rfl⟩

/-- Registers that are loaded are those of the block. -/
theorem v_replaceUpTo_or (m : Machine) (x r : Digit) (f : Digit → UInt8) :
    (m.registers.replaceUpTo x f).v.get r = m.v r ∨ r ≤ x := by
  rw [Registers.v_replaceUpTo]
  by_cases h : r ≤ x
  · exact .inr h
  · exact .inl (if_neg h)

/-- The index register goes on past a block if the instruction may write
it. -/
theorem Framed.advanceIndex (h : m.Framed i n) (x : Digit) {advances : Bool}
    (hi : advances = true → i.WritesIndex m.profile) : m.Framed i (n.advanceIndex x advances) := by
  cases advances with
  | false => exact h
  | true => exact { h with index := .inr (hi rfl) }

theorem Framed.next (h : m.Framed i n) : m.Framed i n.next :=
  { h with }

theorem call_eq_ok {target : UInt16} (h : m.call target = .ok n) :
    ∃ stack, n = { m with stack := stack }.goTo target := by
  unfold call at h
  cases hp : m.stack.push? (m.pc + 2) with
  | none => simp [hp] at h
  | some stack =>
    rw [hp] at h
    exact ⟨stack, (Except.ok.inj h).symm⟩

theorem returnFromCall_eq_ok (h : m.returnFromCall = .ok n) :
    ∃ stack addr, n = { m with stack := stack }.goTo addr := by
  unfold returnFromCall at h
  cases hp : m.stack.pop? with
  | none => simp [hp] at h
  | some popped =>
    rw [hp] at h
    exact ⟨popped.2, popped.1, (Except.ok.inj h).symm⟩

/-! ## Instructions -/

/-- **An instruction writes inside its footprint.** -/
theorem framed_of_execute (h : m.execute i = .ok n) : m.Framed i n := by
  cases i with
  | returnFromCall =>
    obtain ⟨stack, addr, rfl⟩ := returnFromCall_eq_ok h
    exact { framed_goTo m .returnFromCall addr with stack := .inr (.inl rfl) }
  | call target =>
    obtain ⟨stack, rfl⟩ := call_eq_ok h
    exact { framed_goTo m (.call target) m.pc with stack := .inr (.inr ⟨target, rfl⟩) }
  | clearScreen =>
    obtain rfl := Except.ok.inj h
    exact { framed_goTo m .clearScreen _ with display := .inr rfl }
  | draw x y rows =>
    obtain rfl := Except.ok.inj h
    exact { framed_goTo m (.draw x y rows) m.pc with
      display := .inr rfl
      v := fun r => m.v_setV_or Registers.flag r _ }
  | jump _ | skipIfByte _ _ | skipUnlessByte _ _ | skipIfEqual _ _ | skipUnlessEqual _ _
  | jumpOffset _ | skipIfKey _ | skipUnlessKey _ =>
    obtain rfl := Except.ok.inj h
    exact framed_goTo m _ _
  | setByte x _ | addByte x _ | getDelay x =>
    obtain rfl := Except.ok.inj h
    exact { framed_goTo m _ m.pc with v := fun r => m.v_setV_or x r _ }
  | arithmetic f x y =>
    obtain rfl := Except.ok.inj h
    have hv := m.v_compute_or f x y
    obtain ⟨v, hcompute⟩ := m.compute_eq_withV f x y
    rw [hcompute] at hv ⊢
    exact { framed_goTo m (.arithmetic f x y) m.pc with v := hv }
  | random x mask =>
    obtain rfl := Except.ok.inj h
    exact { framed_goTo m (.random x mask) m.pc with
      v := fun r => m.v_setV_or x r _
      random := .inr ⟨x, mask, rfl⟩ }
  | setIndex _ | addIndex _ | pointGlyph _ =>
    obtain rfl := Except.ok.inj h
    exact { framed_goTo m _ m.pc with index := .inr trivial }
  | setDelay x =>
    obtain rfl := Except.ok.inj h
    exact { framed_goTo m (.setDelay x) m.pc with delay := .inr ⟨x, rfl⟩ }
  | setSound x =>
    obtain rfl := Except.ok.inj h
    exact { framed_goTo m (.setSound x) m.pc with sound := .inr ⟨x, rfl⟩ }
  | awaitKey x =>
    obtain rfl := Except.ok.inj h
    unfold awaitKey
    cases m.keypad.first? with
    | none => exact { framed_goTo m (.awaitKey x) m.pc with awaitingKey := .inr ⟨x, rfl⟩ }
    | some key =>
      exact { framed_goTo m (.awaitKey x) m.pc with
        v := fun r => m.v_setV_or x r _
        awaitingKey := .inr ⟨x, rfl⟩ }
  | storeDecimal x =>
    obtain rfl := Except.ok.inj h
    exact { framed_goTo m (.storeDecimal x) m.pc with
      memory := m.memory.get_writeBlock_or m.index (decimalDigits (m.v x)) }
  | storeBlock x =>
    obtain rfl := Except.ok.inj h
    have hmemory := m.memory.get_writeBlock_or m.index (m.registers.upTo x)
    rw [Registers.length_upTo] at hmemory
    have hstored : m.Framed (.storeBlock x)
        { m with memory := m.memory.writeBlock m.index (m.registers.upTo x) } :=
      { framed_goTo m (.storeBlock x) m.pc with memory := hmemory }
    exact (hstored.advanceIndex x id).next
  | loadBlock x =>
    obtain rfl := Except.ok.inj h
    have hloaded : m.Framed (.loadBlock x)
        { m with registers := m.registers.replaceUpTo x fun r =>
            m.memory.read (m.index + Digit.toWord r) } :=
      { framed_goTo m (.loadBlock x) m.pc with v := fun r => m.v_replaceUpTo_or x r _ }
    exact (hloaded.advanceIndex x id).next

/-! ## What nothing changes -/

/-- The seed and the profile are chosen once: no action changes them, and a
reset keeps them. -/
theorem seed_profile_act (m : Machine) (a : Action) :
    (m.act a).seed = m.seed ∧ (m.act a).profile = m.profile := by
  cases hx : m.executed? a with
  | some i =>
    obtain ⟨-, -, -, he⟩ := executed?_eq_some_iff.1 hx
    exact ⟨(framed_of_execute he).seed, (framed_of_execute he).profile⟩
  | none =>
    by_cases ha : a = .reset
    · rw [ha, act_reset]
      exact ⟨rfl, rfl⟩
    · exact ⟨(sameCourse_act ha hx).seed, (sameCourse_act ha hx).profile⟩

theorem seed_profile_run (m : Machine) (actions : List Action) :
    (m.run actions).seed = m.seed ∧ (m.run actions).profile = m.profile := by
  induction actions generalizing m with
  | nil => exact ⟨rfl, rfl⟩
  | cons a actions ih =>
    rw [run_cons, (ih (m.act a)).1, (ih (m.act a)).2]
    exact m.seed_profile_act a

/-! ## Cycles -/

/-- A cycle that goes through executes the instruction at the program
counter of a machine without a fault. -/
theorem of_cycle_eq_ok (h : m.cycle = (.ok (), n)) :
    m.fault = none ∧ ∃ i, Instruction.decode? m.fetch = some i ∧ m.execute i = .ok n := by
  cases hf : m.fault with
  | some f =>
    rw [cycle_of_fault hf] at h
    cases h
  | none =>
    cases hs : m.step with
    | error f =>
      rw [cycle_of_step_error hf hs] at h
      cases h
    | ok n' =>
      rw [cycle_of_step_ok hf hs, Prod.mk.injEq] at h
      obtain rfl := h.2
      exact ⟨rfl, step_eq_ok_iff.1 hs⟩

theorem cycle_eq_ok (h : m.cycle.1 = .ok ()) : m.cycle = (.ok (), m.cycle.2) :=
  Prod.ext h rfl

/-- **A cycle writes inside the footprint of its instruction.** A cycle that
goes through executes an instruction and leaves every part of the machine
as it was that this instruction may not write; the redraw flag goes up with
the two that write the screen, and stays as it was with all others; and
there is no fault. So the bitwise operations and the sums without a carry
leave the flag register alone, unless it is their target. -/
theorem framed_of_cycle (h : m.cycle = (.ok (), n)) :
    ∃ i, Instruction.decode? m.fetch = some i ∧ m.Framed i n ∧ n.fault = none ∧
      (∀ f ∈ [Arithmetic.or, .and, .xor], ∀ x y, i = .arithmetic f x y → x ≠ Registers.flag →
        n.v Registers.flag = m.v Registers.flag) ∧
      (∀ x byte, i = .addByte x byte → x ≠ Registers.flag →
        n.v Registers.flag = m.v Registers.flag) ∧
      (∀ x, i = .addIndex x → n.v Registers.flag = m.v Registers.flag) := by
  obtain ⟨hfault, i, hi, hexecute⟩ := of_cycle_eq_ok h
  have hframed := framed_of_execute hexecute
  have hspared : ¬i.WritesRegister Registers.flag →
      n.v Registers.flag = m.v Registers.flag := (hframed.v Registers.flag).resolve_right
  refine ⟨i, hi, hframed, hframed.fault.trans hfault, ?_, ?_, ?_⟩
  · rintro f hf x y rfl hx
    have hnone : f.writesFlag = false := by
      simp only [List.mem_cons, List.not_mem_nil, or_false] at hf
      rcases hf with rfl | rfl | rfl <;> rfl
    refine hspared ?_
    rintro (hr | ⟨hwrites, -⟩)
    · exact hx hr.symm
    · rw [hnone] at hwrites
      cases hwrites
  · rintro x byte rfl hx
    exact hspared fun hr => hx hr.symm
  · rintro x rfl
    exact hspared id

/-- A machine about to store four registers from the last two cells of
memory on. -/
def storingAcrossTheEnd : Machine :=
  (powerOn 0 Profile.vip).run
    [.load [0x60, 0x11, 0x61, 0x22, 0x62, 0x33, 0x63, 0x44, 0xAF, 0xFE, 0xF3, 0x55],
      .cycle, .cycle, .cycle, .cycle, .cycle]

/-- The store goes on at the start of memory and takes the index register
past the end; the cell behind the block, the registers and the screen stay. -/
theorem framed_of_cycle_storingAcrossTheEnd :
    let m := storingAcrossTheEnd
    ∃ n : Machine, m.cycle = (.ok (), n) ∧ m.Framed (.storeBlock 3) n ∧
      n.memory.read 0x0001 = 0x44 ∧ n.index = 0x1002 ∧
      n.memory.read 0x0002 = m.memory.read 0x0002 ∧ (∀ r, n.v r = m.v r) ∧
      n.display = m.display ∧ n.redraw = false := by
  intro m
  obtain ⟨hok, hread, hindex, hlowered, hdecode, hcell⟩ : m.cycle.1 = .ok () ∧
      m.cycle.2.memory.read 0x0001 = 0x44 ∧ m.cycle.2.index = 0x1002 ∧ m.redraw = false ∧
      Instruction.decode? m.fetch = some (.storeBlock 3) ∧
      ¬Address.InRow m.index 4 (Address.ofWord 0x0002) := by decide +kernel
  have hcycle : m.cycle = (.ok (), m.cycle.2) := by rw [← hok]
  generalize m.cycle.2 = n at hread hindex hcycle
  obtain ⟨i, hi, hframed, -⟩ := framed_of_cycle hcycle
  rw [hdecode, Option.some.injEq] at hi
  subst hi
  have hscreen : (Instruction.storeBlock 3).writesScreen = false := rfl
  have hdisplay := hframed.display
  have hredraw := hframed.redraw
  rw [hscreen] at hdisplay hredraw
  refine ⟨n, hcycle, hframed, hread, hindex, ?_, ?_, ?_, ?_⟩
  · exact (hframed.memory (Address.ofWord 0x0002)).resolve_right hcell
  · exact fun r => (hframed.v r).resolve_right id
  · exact hdisplay.resolve_right nofun
  · exact hredraw.trans hlowered

end Machine

end Chip8
