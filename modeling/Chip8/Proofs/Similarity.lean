import Chip8.Machine.Cycle
/-!
# Machines that agree but for the upper bits of addresses

The program counter, the index register and the frames of the call stack
hold sixteen bits, and memory looks at twelve. Machines that agree but for
the upper four bits of these words are `Similar`. They read the same words
and blocks, and every instruction takes them to similar machines again, or
fails on both (`Similar.execute`); a fault names the address of its
instruction, and there alone the upper bits show.
-/

namespace Chip8

/-! ## Words that name the same cell -/

/-- Words that name the same cell do so still when both move on. -/
theorem Address.ofWord_add {a b : UInt16} (h : Address.ofWord a = Address.ofWord b)
    (k : UInt16) : Address.ofWord (a + k) = Address.ofWord (b + k) := by
  rw [Fin.ext_iff, Address.val_ofWord, Address.val_ofWord] at h ⊢
  rw [UInt16.toNat_add, UInt16.toNat_add]
  omega

namespace Memory

variable {a b : UInt16}

/-- A word is read from the cells that its address names. -/
theorem readWord_congr (m : Memory) (h : Address.ofWord a = Address.ofWord b) :
    m.readWord a = m.readWord b := by
  rw [readWord, readWord, m.read_congr h, m.read_congr (Address.ofWord_add h 1)]

/-- And so is a block. -/
theorem readBlock_congr (m : Memory) (h : Address.ofWord a = Address.ofWord b) (count : Nat) :
    m.readBlock a count = m.readBlock b count :=
  List.map_congr_left fun k _ => m.read_congr (Address.ofWord_add h (UInt16.ofNat k))

/-- A block is written to the cells that its address names. -/
theorem writeBlock_congr (m : Memory) (h : Address.ofWord a = Address.ofWord b)
    (block : List UInt8) : m.writeBlock a block = m.writeBlock b block := by
  induction block generalizing m a b with
  | nil => rfl
  | cons byte block ih =>
    have hw : m.write a byte = m.write b byte := by simp only [write, h]
    rw [writeBlock, writeBlock, hw]
    exact ih _ (Address.ofWord_add h 1)

end Memory

/-- Stacks whose frames name the same cells one by one are equally deep. -/
theorem CallStack.depth_eq_of_frames {s t : CallStack}
    (h : s.frames.map Address.ofWord = t.frames.map Address.ofWord) : s.depth = t.depth := by
  have hlen := congrArg List.length h
  rwa [List.length_map, List.length_map, length_frames, length_frames] at hlen

/-! ## Outcomes that agree -/

/-- Two faults are of one kind and word, at addresses of the same cell. -/
inductive Fault.Similar : Fault → Fault → Prop
  /-- The same word is no instruction. -/
  | decode {p q : UInt16} (word : UInt16) (h : Address.ofWord p = Address.ofWord q) :
      Similar (.decode p word) (.decode q word)
  /-- Both are calls too deep. -/
  | stackOverflow {p q : UInt16} (h : Address.ofWord p = Address.ofWord q) :
      Similar (.stackOverflow p) (.stackOverflow q)
  /-- Both are returns without a call. -/
  | stackUnderflow {p q : UInt16} (h : Address.ofWord p = Address.ofWord q) :
      Similar (.stackUnderflow p) (.stackUnderflow q)
  /-- The same image does not fit. -/
  | load (size capacity : Nat) : Similar (.load size capacity) (.load size capacity)

theorem Fault.Similar.refl (f : Fault) : f.Similar f := by
  cases f with
  | decode pc word => exact .decode word rfl
  | stackOverflow pc => exact .stackOverflow rfl
  | stackUnderflow pc => exact .stackUnderflow rfl
  | load size capacity => exact .load size capacity

/-- Two outcomes agree: both are faults, and similar, or both are values,
and related. -/
inductive Alike {α β : Type} (r : α → β → Prop) : Except Fault α → Except Fault β → Prop
  | ok {a : α} {b : β} (h : r a b) : Alike r (.ok a) (.ok b)
  | error {f g : Fault} (h : f.Similar g) : Alike r (.error f) (.error g)

/-- Outcomes that agree do so after a change of their values. -/
theorem Alike.map {α β : Type} {x y : Except Fault α} (h : Alike Eq x y) (g : α → β) :
    Alike Eq (x.map g) (y.map g) := by
  cases h with
  | ok h => exact .ok (congrArg g h)
  | error h => exact .error h

namespace Machine

/-- **Two machines agree but for the upper bits of addresses**: the program
counter, the index register, the frames of the call stack one by one, and
the address in the fault, if there is one, may differ in the four bits that
name no cell. -/
structure Similar (m n : Machine) : Prop where
  memory : m.memory = n.memory
  v : m.registers.v = n.registers.v
  delay : m.registers.delay = n.registers.delay
  sound : m.registers.sound = n.registers.sound
  keypad : m.keypad = n.keypad
  display : m.display = n.display
  redraw : m.redraw = n.redraw
  awaitingKey : m.awaitingKey = n.awaitingKey
  random : m.random = n.random
  seed : m.seed = n.seed
  profile : m.profile = n.profile
  depth : m.stack.depth = n.stack.depth
  pc : Address.ofWord m.pc = Address.ofWord n.pc
  index : Address.ofWord m.index = Address.ofWord n.index
  frames : m.stack.frames.map Address.ofWord = n.stack.frames.map Address.ofWord
  fault : Option.Rel Fault.Similar m.fault n.fault

variable {m n : Machine}

theorem Similar.refl (m : Machine) : m.Similar m where
  memory := rfl
  v := rfl
  delay := rfl
  sound := rfl
  keypad := rfl
  display := rfl
  redraw := rfl
  awaitingKey := rfl
  random := rfl
  seed := rfl
  profile := rfl
  depth := rfl
  pc := rfl
  index := rfl
  frames := rfl
  fault := by
    cases m.fault with
    | none => exact .none
    | some f => exact .some (Fault.Similar.refl f)

namespace Similar

/-! ## What similar machines have in common -/

theorem v_eq (h : m.Similar n) (x : Digit) : m.v x = n.v x := by
  rw [Machine.v, Machine.v, h.v]

/-- Similar machines are at the same word. -/
theorem fetch (h : m.Similar n) : m.fetch = n.fetch := by
  rw [Machine.fetch, Machine.fetch, h.memory]
  exact n.memory.readWord_congr h.pc

/-- If one of two similar machines is free of faults, both are. -/
theorem fault_eq_none (h : m.Similar n) (hm : m.fault = none) : n.fault = none := by
  have hf := h.fault
  rw [hm] at hf
  generalize n.fault = g at hf ⊢
  cases hf
  rfl

/-- If one of two similar machines has a fault, the other has a similar
one. -/
theorem exists_fault (h : m.Similar n) {f : Fault} (hm : m.fault = some f) :
    ∃ g, n.fault = some g ∧ f.Similar g := by
  have hf := h.fault
  rw [hm] at hf
  generalize n.fault = g at hf ⊢
  cases hf with
  | some hs => exact ⟨_, rfl, hs⟩

/-! ## Parts of instructions -/

theorem goTo (h : m.Similar n) {a b : UInt16} (e : Address.ofWord a = Address.ofWord b) :
    (m.goTo a).Similar (n.goTo b) :=
  { h with pc := e }

theorem next (h : m.Similar n) : m.next.Similar n.next :=
  h.goTo (Address.ofWord_add h.pc 2)

theorem skipIf (h : m.Similar n) {a b : Bool} (e : a = b) :
    (m.skipIf a).Similar (n.skipIf b) := by
  subst e
  cases a with
  | false => exact h.goTo (Address.ofWord_add h.pc 2)
  | true => exact h.goTo (Address.ofWord_add h.pc 4)

/-- The byte registers replaced by the same bytes. -/
theorem withV (h : m.Similar n) {v w : Buffer UInt8 16} (e : v = w) :
    Similar { m with registers := { m.registers with v := v } }
      { n with registers := { n.registers with v := w } } :=
  { h with v := e }

theorem setV (h : m.Similar n) (x : Digit) {a b : UInt8} (e : a = b) :
    (m.setV x a).Similar (n.setV x b) := by
  subst e
  exact h.withV (congrArg (Buffer.put · x a) h.v)

theorem setIndex (h : m.Similar n) {a b : UInt16}
    (e : Address.ofWord a = Address.ofWord b) : (m.setIndex a).Similar (n.setIndex b) :=
  { h with index := e }

theorem advanceIndex (h : m.Similar n) (x : Digit) {a b : Bool} (e : a = b) :
    (m.advanceIndex x a).Similar (n.advanceIndex x b) := by
  subst e
  cases a with
  | false => exact h
  | true => exact h.setIndex (Address.ofWord_add h.index _)

theorem compute (h : m.Similar n) (op : Arithmetic) (x y : Digit) :
    (m.compute op x y).Similar (n.compute op x y) := by
  have happly : op.apply m.profile (m.v x) (m.v y) = op.apply n.profile (n.v x) (n.v y) := by
    rw [h.profile, h.v_eq x, h.v_eq y]
  unfold Machine.compute
  rw [happly]
  rcases op.apply n.profile (n.v x) (n.v y) with ⟨result, _ | on⟩
  · exact h.withV (congrArg (Buffer.put · x (Word.lowByte result)) h.v)
  · exact h.withV (congrArg (fun v : Buffer UInt8 16 =>
      (v.put x (Word.lowByte result)).put Registers.flag (if on then 1 else 0)) h.v)

/-- The source of random bytes replaced by the same one. -/
theorem withRandom (h : m.Similar n) {r q : Random} (e : r = q) :
    Similar { m with random := r } { n with random := q } :=
  { h with random := e }

theorem drawRandom (h : m.Similar n) (x : Digit) (mask : UInt8) :
    (m.drawRandom x mask).Similar (n.drawRandom x mask) := by
  have hdrawn : m.random.inRange 0 0x100 = n.random.inRange 0 0x100 := by rw [h.random]
  unfold Machine.drawRandom
  rw [hdrawn]
  exact (h.withRandom rfl).setV x rfl

/-- The sprite is read from the same cells. -/
theorem drawSprite (h : m.Similar n) (x y rows : Digit) :
    (m.drawSprite x y rows).Similar (n.drawSprite x y rows) := by
  have hsprite : m.memory.readBlock m.index rows.val = n.memory.readBlock n.index rows.val := by
    rw [h.memory]
    exact n.memory.readBlock_congr h.index rows.val
  have hdrawing :
      m.display.draw (m.memory.readBlock m.index rows.val) (m.v x).toNat (m.v y).toNat =
        n.display.draw (n.memory.readBlock n.index rows.val) (n.v x).toNat (n.v y).toNat := by
    rw [hsprite, h.display, h.v_eq x, h.v_eq y]
  have hflag := congrArg (fun on : Bool => if on then (1 : UInt8) else 0)
    (congrArg Display.Drawing.collision hdrawing)
  have hdrawn := h.setV Registers.flag hflag
  exact { hdrawn with
    display := congrArg Display.Drawing.display hdrawing
    redraw := rfl }

theorem awaitKey (h : m.Similar n) (x : Digit) : (m.awaitKey x).Similar (n.awaitKey x) := by
  have hkey : m.keypad.first? = n.keypad.first? := by rw [h.keypad]
  unfold Machine.awaitKey
  rw [hkey]
  cases n.keypad.first? with
  | none => exact { h with awaitingKey := rfl }
  | some key =>
    have hdone : Similar { m with awaitingKey := false } { n with awaitingKey := false } :=
      { h with awaitingKey := rfl }
    exact (hdone.setV x rfl).next

/-- The same bytes are stored in the same cells. -/
theorem writeBlock (h : m.Similar n) {block block' : List UInt8} (e : block = block') :
    Similar { m with memory := m.memory.writeBlock m.index block }
      { n with memory := n.memory.writeBlock n.index block' } := by
  have hmemory : m.memory.writeBlock m.index block = n.memory.writeBlock n.index block' := by
    rw [h.memory, e]
    exact n.memory.writeBlock_congr h.index block'
  exact { h with memory := hmemory }

theorem storeBlock (h : m.Similar n) (x : Digit) :
    (m.storeBlock x).Similar (n.storeBlock x) := by
  have hblock : m.registers.upTo x = n.registers.upTo x := by
    rw [Registers.upTo, Registers.upTo, h.v]
  exact (h.writeBlock hblock).advanceIndex x (congrArg Profile.storeAdvancesIndex h.profile)

/-- The same bytes are loaded from the same cells. -/
theorem loadBlock (h : m.Similar n) (x : Digit) : (m.loadBlock x).Similar (n.loadBlock x) := by
  have hread : (fun r : Digit => m.memory.read (m.index + Digit.toWord r)) =
      fun r : Digit => n.memory.read (n.index + Digit.toWord r) := by
    funext r
    rw [h.memory]
    exact n.memory.read_congr (Address.ofWord_add h.index _)
  have hloaded :
      (m.registers.replaceUpTo x fun r => m.memory.read (m.index + Digit.toWord r)).v =
        (n.registers.replaceUpTo x fun r => n.memory.read (n.index + Digit.toWord r)).v := by
    rw [hread, Registers.replaceUpTo, Registers.replaceUpTo, h.v]
  exact (h.withV hloaded).advanceIndex x (congrArg Profile.loadAdvancesIndex h.profile)

/-! ## Instructions -/

/-- A call keeps addresses of the same cell, or fails on both machines. -/
theorem call (h : m.Similar n) (target : UInt16) :
    Alike Similar (m.call target) (n.call target) := by
  have hnext := Address.ofWord_add h.pc 2
  unfold Machine.call
  cases hm : m.stack.push? (m.pc + 2) with
  | none =>
    have hd : n.stack.depth = 16 := h.depth ▸ CallStack.push?_eq_none_iff.1 hm
    rw [CallStack.push?_eq_none_iff.2 hd]
    exact .error (.stackOverflow h.pc)
  | some stack =>
    cases hn : n.stack.push? (n.pc + 2) with
    | none =>
      have hd : m.stack.depth = 16 := h.depth ▸ CallStack.push?_eq_none_iff.1 hn
      rw [CallStack.push?_eq_none_iff.2 hd] at hm
      cases hm
    | some stack' =>
      have hframes : stack.frames.map Address.ofWord = stack'.frames.map Address.ofWord := by
        rw [CallStack.frames_push? hm, CallStack.frames_push? hn, List.map_append,
          List.map_append, h.frames, List.map_singleton, List.map_singleton, hnext]
      exact .ok { h with
        pc := rfl, frames := hframes, depth := CallStack.depth_eq_of_frames hframes }

/-- A return goes on at addresses of the same cell, or fails on both. -/
theorem returnFromCall (h : m.Similar n) :
    Alike Similar m.returnFromCall n.returnFromCall := by
  unfold Machine.returnFromCall
  cases hm : m.stack.pop? with
  | none =>
    have hd : n.stack.depth = 0 := h.depth ▸ CallStack.pop?_eq_none_iff.1 hm
    rw [CallStack.pop?_eq_none_iff.2 hd]
    exact .error (.stackUnderflow h.pc)
  | some popped =>
    cases hn : n.stack.pop? with
    | none =>
      have hd : m.stack.depth = 0 := h.depth ▸ CallStack.pop?_eq_none_iff.1 hn
      rw [CallStack.pop?_eq_none_iff.2 hd] at hm
      cases hm
    | some popped' =>
      obtain ⟨addr, stack⟩ := popped
      obtain ⟨addr', stack'⟩ := popped'
      have hframes := h.frames
      rw [CallStack.frames_pop? hm, CallStack.frames_pop? hn, List.map_append, List.map_append,
        List.map_singleton, List.map_singleton] at hframes
      -- both pops take the last frame, so the lists split in the same place
      obtain ⟨hrest, haddr⟩ := List.append_inj' hframes rfl
      exact .ok { h with
        pc := List.singleton_inj.1 haddr
        frames := hrest
        depth := CallStack.depth_eq_of_frames hrest }

/-- **An instruction takes similar machines to similar machines**, or fails
on both at addresses of the same cell. -/
theorem execute (h : m.Similar n) (i : Instruction) :
    Alike Similar (m.execute i) (n.execute i) := by
  cases i with
  | clearScreen =>
    have hcleared : Similar { m with display := Display.blank, redraw := true }
        { n with display := Display.blank, redraw := true } :=
      { h with display := rfl, redraw := rfl }
    exact .ok hcleared.next
  | returnFromCall => exact h.returnFromCall
  | jump target => exact .ok (h.goTo rfl)
  | call target => exact h.call _
  | skipIfByte x byte => exact .ok (h.skipIf (by rw [h.v_eq]))
  | skipUnlessByte x byte => exact .ok (h.skipIf (by rw [h.v_eq]))
  | skipIfEqual x y => exact .ok (h.skipIf (by rw [h.v_eq, h.v_eq]))
  | skipUnlessEqual x y => exact .ok (h.skipIf (by rw [h.v_eq, h.v_eq]))
  | setByte x byte => exact .ok (h.setV x rfl).next
  | addByte x byte => exact .ok (h.setV x (by rw [h.v_eq])).next
  | arithmetic op x y => exact .ok (h.compute op x y).next
  | setIndex target => exact .ok (h.setIndex rfl).next
  | jumpOffset target => exact .ok (h.goTo (by rw [h.v_eq]))
  | random x mask => exact .ok (h.drawRandom x mask).next
  | draw x y rows => exact .ok (h.drawSprite x y rows).next
  | skipIfKey x => exact .ok (h.skipIf (by rw [h.v_eq, h.keypad]))
  | skipUnlessKey x => exact .ok (h.skipIf (by rw [h.v_eq, h.keypad]))
  | getDelay x => exact .ok (h.setV x h.delay).next
  | awaitKey x => exact .ok (h.awaitKey x)
  | setDelay x =>
    have hset : Similar { m with registers := { m.registers with delay := m.v x } }
        { n with registers := { n.registers with delay := n.v x } } :=
      { h with delay := h.v_eq x }
    exact .ok hset.next
  | setSound x =>
    have hset : Similar { m with registers := { m.registers with sound := m.v x } }
        { n with registers := { n.registers with sound := n.v x } } :=
      { h with sound := h.v_eq x }
    exact .ok hset.next
  | addIndex x =>
    -- the same byte is added to both, so that the sums name one cell
    rw [Machine.execute, Machine.execute, h.v_eq]
    exact .ok (h.setIndex (Address.ofWord_add h.index _)).next
  | pointGlyph x => exact .ok (h.setIndex (by rw [h.v_eq])).next
  | storeDecimal x => exact .ok (h.writeBlock (by rw [h.v_eq])).next
  | storeBlock x => exact .ok (h.storeBlock x).next
  | loadBlock x => exact .ok (h.loadBlock x).next

end Similar

end Machine

end Chip8
