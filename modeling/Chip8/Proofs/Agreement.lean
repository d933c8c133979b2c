import Chip8.Instruction.Reading
import Chip8.Proofs.History
import Mathlib.Data.Set.Basic
/-!
# Machines that agree but in some parts

A `Difference` says in what two machines may differ: in some memory cells,
in the index register, in the keys that are down, in the profile. All else
is the same. Such machines go on in lockstep for as long as no instruction
finds out: as long as each one that both execute `FindsSame` in both,
wherever it looks at what may differ (`EqualBut.execute`). What an
instruction writes is the same in both from then on, so the difference
shrinks with every cell that is written and every address that the index
register is set to; it grows only where the profiles disagree on a block
move (`Difference.after`).

The instructions come first, then cycles and the other actions
(`EqualBut.perform`), then histories (`EqualBut.run`).
-/

namespace Chip8

/-! ## Reading and writing memories that differ -/

/-- A block written to two memories makes its cells the same, and leaves the
same what was the same. -/
theorem Memory.get_writeBlock_congr {m n : Memory} {start : UInt16} {block : List UInt8}
    {cell : Address}
    (h : m.cells.get cell = n.cells.get cell ∨ Address.InRow start block.length cell) :
    (m.writeBlock start block).cells.get cell = (n.writeBlock start block).cells.get cell := by
  induction block generalizing m n start with
  | nil =>
    rcases h with h | ⟨k, hk, -⟩
    · exact h
    · exact absurd hk (Nat.not_lt_zero k)
  | cons b bs ih =>
    rw [writeBlock, writeBlock]
    apply ih
    rw [List.length_cons, Address.inRow_succ_iff] at h
    simp only [write, Buffer.get_put]
    by_cases hfirst : Address.ofWord start = cell
    · exact .inl (by rw [if_pos hfirst, if_pos hfirst])
    · rw [if_neg hfirst, if_neg hfirst]
      rcases h with h | hcell | hrest
      · exact .inl h
      · exact absurd hcell.symm hfirst
      · exact .inr hrest

/-- The registers up to one are replaced by what is given for them. -/
theorem Registers.replaceUpTo_congr (r : Registers) {x : Digit} {f g : Digit → UInt8}
    (h : ∀ k ≤ x, f k = g k) : r.replaceUpTo x f = r.replaceUpTo x g := by
  have hv : (r.replaceUpTo x f).v = (r.replaceUpTo x g).v := by
    apply Buffer.ext_get
    intro k
    rw [v_replaceUpTo, v_replaceUpTo]
    by_cases hk : k ≤ x
    · rw [if_pos hk, if_pos hk, h k hk]
    · rw [if_neg hk, if_neg hk]
  exact congrArg (fun v => { r with v := v }) hv

/-- Two outcomes are the same, but for values that are related: both fail
with one fault, or neither fails. -/
inductive SameOutcome {α β : Type} (r : α → β → Prop) : Except Fault α → Except Fault β → Prop
  | ok {a : α} {b : β} (h : r a b) : SameOutcome r (.ok a) (.ok b)
  | error (f : Fault) : SameOutcome r (.error f) (.error f)

theorem SameOutcome.mono {α β : Type} {r s : α → β → Prop} {x : Except Fault α}
    {y : Except Fault β} (h : SameOutcome r x y) (hrs : ∀ a b, r a b → s a b) :
    SameOutcome s x y := by
  cases h with
  | ok h => exact .ok (hrs _ _ h)
  | error f => exact .error f

/-- In what two machines may differ. -/
structure Difference where
  /-- The memory cells that may hold different bytes. -/
  cells : Set Address
  /-- The index register may differ. -/
  index : Bool
  /-- Different keys may be down. -/
  keypad : Bool
  /-- The profiles may differ. -/
  profile : Bool

namespace Difference

/-- A difference is at least another if it allows all that the other does. -/
instance : Preorder Difference where
  le d e := d.cells ⊆ e.cells ∧ (d.index = true → e.index = true) ∧
    (d.keypad = true → e.keypad = true) ∧ (d.profile = true → e.profile = true)
  le_refl d := ⟨subset_rfl, id, id, id⟩
  le_trans d e f hde hef := ⟨hde.1.trans hef.1, hef.2.1 ∘ hde.2.1, hef.2.2.1 ∘ hde.2.2.1,
    hef.2.2.2 ∘ hde.2.2.2⟩

/-- What is left of a difference after an instruction that both machines
execute. -/
def after (d : Difference) (m n : Machine) (i : Instruction) : Difference where
  cells := {cell ∈ d.cells | ¬i.WritesCell m.index cell}
  index := i.leavesIndexApart m.profile n.profile d.index
  keypad := d.keypad
  profile := d.profile

/-- What is left of a difference after an action of both machines. -/
def afterAction (d : Difference) (m n : Machine) (a : Machine.Action) : Difference :=
  (m.executed? a).elim d (d.after m n)

/-- Under one profile a difference that leaves the index register out does
not grow, and loses the cells that are written. -/
theorem afterAction_le {d : Difference} {m n : Machine} (hp : m.profile = n.profile)
    (hd : d.index = false) (a : Machine.Action) :
    d.afterAction m n a ≤
      { d with cells := {cell ∈ d.cells | ¬∃ i ∈ m.executed? a, i.WritesCell m.index cell} } := by
  rw [afterAction]
  cases hx : m.executed? a with
  | none => exact ⟨fun cell hcell => ⟨hcell, nofun⟩, id, id, id⟩
  | some i =>
    have hindex : (d.after m n i).index = false := by
      rw [after, hp, hd]
      exact i.leavesIndexApart_self n.profile
    refine ⟨fun cell hcell => ⟨hcell.1, ?_⟩, fun happart => absurd (hindex.symm.trans happart)
      nofun, id, id⟩
    rintro ⟨j, hj, hwrites⟩
    obtain rfl := Option.some.inj hj
    exact hcell.2 hwrites

end Difference

/-- **An instruction finds the same in two machines**, in every place where
it looks at something in which they may differ. -/
structure Instruction.FindsSame (i : Instruction) (d : Difference) (m n : Machine) : Prop where
  /-- It reads only cells that hold the same byte in both. -/
  cells : ∀ cell ∈ d.cells, ¬i.ReadsCell m.index cell
  /-- If it goes by the index register, that is the same in both. -/
  index : i.readsIndex = true → d.index = false
  /-- If it asks for a key, that is up in both or down in both. -/
  key : ∀ x, i = .skipIfKey x ∨ i = .skipUnlessKey x →
    m.keypad.isPressed (m.v x) = n.keypad.isPressed (m.v x)
  /-- If it waits for a key, the lowest that is down is the same in both. -/
  lowestKey : ∀ x, i = .awaitKey x → m.keypad.first? = n.keypad.first?
  /-- If it shifts, both shift the same byte. -/
  shifted : ∀ r ∈ i.shifted?,
    m.profile.shiftReadsSecond = n.profile.shiftReadsSecond ∨ m.v r.1 = m.v r.2

/-- Whether an instruction neither stores anything, nor sets the index
register, nor moves a block. -/
def Instruction.keepsDifference : Instruction → Bool
  | setIndex _ | pointGlyph _ | storeDecimal _ | storeBlock _ | loadBlock _ => false
  | _ => true

namespace Machine

variable {d e : Difference} {m n : Machine} {i : Instruction}

/-- **Two machines are equal but in what may differ.** -/
structure EqualBut (d : Difference) (m n : Machine) : Prop where
  memory : ∀ cell ∉ d.cells, m.memory.cells.get cell = n.memory.cells.get cell
  v : m.registers.v = n.registers.v
  index : d.index = false → m.index = n.index
  pc : m.pc = n.pc
  delay : m.registers.delay = n.registers.delay
  sound : m.registers.sound = n.registers.sound
  stack : m.stack = n.stack
  keypad : d.keypad = false → m.keypad = n.keypad
  display : m.display = n.display
  redraw : m.redraw = n.redraw
  awaitingKey : m.awaitingKey = n.awaitingKey
  fault : m.fault = n.fault
  random : m.random = n.random
  seed : m.seed = n.seed
  profile : d.profile = false → m.profile = n.profile

namespace EqualBut

theorem refl (d : Difference) (m : Machine) : m.EqualBut d m :=
  ⟨fun _ _ => rfl, rfl, fun _ => rfl, rfl, rfl, rfl, rfl, fun _ => rfl, rfl, rfl, rfl, rfl, rfl,
    rfl, fun _ => rfl⟩

theorem mono (h : m.EqualBut d n) (hde : d ≤ e) : m.EqualBut e n := by
  obtain ⟨hcells, hindex, hkeypad, hprofile⟩ := hde
  have hfalse {a b : Bool} (hab : a = true → b = true) (hb : b = false) : a = false := by
    cases a with
    | false => rfl
    | true => rw [hab rfl] at hb; cases hb
  exact { h with
    memory := fun cell hcell => h.memory cell fun hd => hcell (hcells hd)
    index := fun he => h.index (hfalse hindex he)
    keypad := fun he => h.keypad (hfalse hkeypad he)
    profile := fun he => h.profile (hfalse hprofile he) }

/-! ## What machines have in common -/

/-- **All else is the same**: apart from memory, the index register, the
keypad and the profile, the second machine is the first. -/
theorem eq_with (h : m.EqualBut d n) :
    n = { m with
      memory := n.memory
      registers := { m.registers with index := n.index }
      keypad := n.keypad
      profile := n.profile } := by
  obtain ⟨memory, ⟨v, index, pc, delay, sound⟩, stack, keypad, display, redraw, awaitingKey,
    fault, random, seed, profile⟩ := m
  obtain ⟨-, rfl, -, rfl, rfl, rfl, rfl, -, rfl, rfl, rfl, rfl, rfl, rfl, -⟩ := h
  rfl

theorem v_eq (h : m.EqualBut d n) (x : Digit) : m.v x = n.v x := by
  rw [Machine.v, Machine.v, h.v]

/-- A row of cells that do not differ reads the same. -/
theorem read_row (h : m.EqualBut d n) {start : UInt16} {count k : Nat} (hk : k < count)
    (hsame : ∀ cell ∈ d.cells, ¬Address.InRow start count cell) :
    m.memory.read (start + UInt16.ofNat k) = n.memory.read (start + UInt16.ofNat k) :=
  h.memory _ fun hd => hsame _ hd ⟨k, hk, rfl⟩

/-- With the two cells at the program counter the same, both machines are at
the same word. -/
theorem fetch (h : m.EqualBut d n) (hsame : ∀ cell ∈ d.cells, ¬Address.InRow m.pc 2 cell) :
    m.fetch = n.fetch := by
  have hfirst := h.read_row Nat.zero_lt_two hsame
  have hsecond := h.read_row Nat.one_lt_two hsame
  have hzero : m.pc + UInt16.ofNat 0 = m.pc := UInt16.add_zero m.pc
  rw [hzero] at hfirst
  rw [Machine.fetch, Machine.fetch, ← h.pc, Memory.readWord, Memory.readWord, hfirst]
  exact congrArg _ hsecond

/-! ## Parts of instructions -/

theorem goTo (h : m.EqualBut d n) (pc : UInt16) : (m.goTo pc).EqualBut d (n.goTo pc) :=
  { h with pc := rfl }

theorem next (h : m.EqualBut d n) : m.next.EqualBut d n.next := by
  rw [Machine.next, Machine.next, h.pc]
  exact h.goTo _

theorem skipIf (h : m.EqualBut d n) {a b : Bool} (e : a = b) :
    (m.skipIf a).EqualBut d (n.skipIf b) := by
  rw [Machine.skipIf, Machine.skipIf, h.pc, e]
  exact h.goTo _

/-- The byte registers replaced by the same bytes. -/
theorem withV (h : m.EqualBut d n) {v w : Buffer UInt8 16} (e : v = w) :
    EqualBut d { m with registers := { m.registers with v := v } }
      { n with registers := { n.registers with v := w } } :=
  { h with v := e }

theorem setV (h : m.EqualBut d n) (x : Digit) {a b : UInt8} (e : a = b) :
    (m.setV x a).EqualBut d (n.setV x b) := by
  subst e
  exact h.withV (congrArg (Buffer.put · x a) h.v)

/-- The index register set to one address in both is the same in both. -/
theorem setIndex (h : m.EqualBut d n) {a b : UInt16} (e : a = b) (apart : Bool) :
    (m.setIndex a).EqualBut { d with index := apart } (n.setIndex b) :=
  { h with index := fun _ => e }

theorem compute (h : m.EqualBut d n) (f : Arithmetic) (x y : Digit)
    (hs : f.isShift = true →
      m.profile.shiftReadsSecond = n.profile.shiftReadsSecond ∨ m.v x = m.v y) :
    (m.compute f x y).EqualBut d (n.compute f x y) := by
  unfold Machine.compute
  rw [f.apply_congr hs, h.v_eq x, h.v_eq y]
  rcases f.apply n.profile (n.v x) (n.v y) with ⟨result, _ | on⟩
  · exact h.withV (congrArg (Buffer.put · x (Word.lowByte result)) h.v)
  · exact h.withV (congrArg (fun v : Buffer UInt8 16 =>
      (v.put x (Word.lowByte result)).put Registers.flag (if on then 1 else 0)) h.v)

/-- The source of random bytes replaced by the same one. -/
theorem withRandom (h : m.EqualBut d n) {r q : Random} (e : r = q) :
    EqualBut d { m with random := r } { n with random := q } :=
  { h with random := e }

theorem drawRandom (h : m.EqualBut d n) (x : Digit) (mask : UInt8) :
    (m.drawRandom x mask).EqualBut d (n.drawRandom x mask) := by
  have hdrawn : m.random.inRange 0 0x100 = n.random.inRange 0 0x100 := by rw [h.random]
  unfold Machine.drawRandom
  rw [hdrawn]
  exact (h.withRandom rfl).setV x rfl

/-- The same sprite is drawn, read from cells that do not differ, or of no
rows at all. -/
theorem drawSprite (h : m.EqualBut d n) (x y rows : Digit)
    (hindex : 0 < rows.val → m.index = n.index)
    (hcells : ∀ cell ∈ d.cells, ¬Address.InRow m.index rows.val cell) :
    (m.drawSprite x y rows).EqualBut d (n.drawSprite x y rows) := by
  have hsprite : m.memory.readBlock m.index rows.val = n.memory.readBlock n.index rows.val := by
    apply List.map_congr_left
    intro k hk
    have hk' := List.mem_range.1 hk
    rw [h.read_row hk' hcells, hindex (by omega)]
  have hdrawing :
      m.display.draw (m.memory.readBlock m.index rows.val) (m.v x).toNat (m.v y).toNat =
        n.display.draw (n.memory.readBlock n.index rows.val) (n.v x).toNat (n.v y).toNat := by
    rw [hsprite, h.display, h.v_eq x, h.v_eq y]
  have hflag := congrArg (fun on : Bool => if on then (1 : UInt8) else 0)
    (congrArg Display.Drawing.collision hdrawing)
  have hdrawn := h.setV Registers.flag hflag
  exact { hdrawn with
    display := congrArg Display.Drawing.display hdrawing
    redraw := rfl }

theorem awaitKey (h : m.EqualBut d n) (x : Digit) (hkey : m.keypad.first? = n.keypad.first?) :
    (m.awaitKey x).EqualBut d (n.awaitKey x) := by
  unfold Machine.awaitKey
  rw [hkey]
  cases n.keypad.first? with
  | none => exact { h with awaitingKey := rfl }
  | some key =>
    have hdone : EqualBut d { m with awaitingKey := false } { n with awaitingKey := false } :=
      { h with awaitingKey := rfl }
    exact (hdone.setV x rfl).next

/-- The same block stored in the same cells: from then on these are the same
in both. -/
theorem writeBlock (h : m.EqualBut d n) (hindex : m.index = n.index) {block block' : List UInt8}
    (e : block = block') :
    EqualBut { d with cells := {cell ∈ d.cells | ¬Address.InRow m.index block.length cell} }
      { m with memory := m.memory.writeBlock m.index block }
      { n with memory := n.memory.writeBlock n.index block' } := by
  subst e
  refine { h with memory := fun cell hcell => ?_ }
  have hwritten : m.memory.cells.get cell = n.memory.cells.get cell ∨
      Address.InRow m.index block.length cell := by
    by_cases hd : cell ∈ d.cells
    · exact .inr (not_not.1 fun hno => hcell ⟨hd, hno⟩)
    · exact .inl (h.memory cell hd)
  rw [← hindex]
  exact Memory.get_writeBlock_congr hwritten

/-- A block move leaves the index register the same in both, if it was and
both profiles or neither move it on. -/
theorem advanceIndex (h : m.EqualBut d n) (x : Digit) (a b : Bool) :
    (m.advanceIndex x a).EqualBut { d with index := d.index || a != b }
      (n.advanceIndex x b) := by
  have hgrown : m.EqualBut { d with index := d.index || a != b } n :=
    h.mono ⟨subset_rfl, fun hd => by rw [hd]; rfl, id, id⟩
  have hsame (hd : (d.index || a != b) = false) :
      m.index = n.index ∧ a = b := by
    rw [Bool.or_eq_false_iff, bne_eq_false_iff_eq] at hd
    exact ⟨h.index hd.1, hd.2⟩
  have hmoved : (d.index || a != b) = false →
      (m.advanceIndex x a).index = (n.advanceIndex x b).index := by
    intro hd
    obtain ⟨hindex, rfl⟩ := hsame hd
    cases a with
    | false => exact hindex
    | true => exact congrArg (· + (Digit.toWord x + 1)) hindex
  cases a <;> cases b <;> exact { hgrown with index := hmoved }

theorem storeBlock (h : m.EqualBut d n) (hindex : m.index = n.index) (x : Digit) :
    (m.storeBlock x).EqualBut (d.after m n (.storeBlock x)) (n.storeBlock x) := by
  have hblock : m.registers.upTo x = n.registers.upTo x := by
    rw [Registers.upTo, Registers.upTo, h.v]
  have hstored := h.writeBlock hindex hblock
  rw [Registers.length_upTo] at hstored
  exact hstored.advanceIndex x _ _

theorem loadBlock (h : m.EqualBut d n) (hindex : m.index = n.index) (x : Digit)
    (hcells : ∀ cell ∈ d.cells, ¬Address.InRow m.index (x.val + 1) cell) :
    (m.loadBlock x).EqualBut
      { d with index := d.index || m.profile.loadAdvancesIndex != n.profile.loadAdvancesIndex }
      (n.loadBlock x) := by
  have hread : ∀ r ≤ x, m.memory.read (m.index + Digit.toWord r) =
      n.memory.read (n.index + Digit.toWord r) := by
    intro r hr
    rw [← hindex]
    exact h.read_row (Nat.lt_succ_of_le hr) hcells
  have hloaded :
      (m.registers.replaceUpTo x fun r => m.memory.read (m.index + Digit.toWord r)).v =
        (n.registers.replaceUpTo x fun r => n.memory.read (n.index + Digit.toWord r)).v := by
    rw [m.registers.replaceUpTo_congr hread, Registers.replaceUpTo, Registers.replaceUpTo, h.v]
  exact (h.withV hloaded).advanceIndex x _ _

theorem call (h : m.EqualBut d n) (target : UInt16) :
    SameOutcome (EqualBut d) (m.call target) (n.call target) := by
  unfold Machine.call
  rw [h.pc, h.stack]
  cases n.stack.push? (n.pc + 2) with
  | none => exact .error _
  | some stack => exact .ok { h with stack := rfl, pc := rfl }

theorem returnFromCall (h : m.EqualBut d n) :
    SameOutcome (EqualBut d) m.returnFromCall n.returnFromCall := by
  unfold Machine.returnFromCall
  rw [h.pc, h.stack]
  cases n.stack.pop? with
  | none => exact .error _
  | some popped => exact .ok { h with stack := rfl, pc := rfl }

/-! ## Instructions -/

/-- Of an instruction that writes no cell and leaves the index register in
doubt or not as it was, the difference does not change. -/
theorem of_kept {k l : Machine} (h : k.EqualBut d l) (hw : ∀ cell, ¬i.WritesCell m.index cell)
    (hi : i.leavesIndexApart m.profile n.profile d.index = d.index) :
    k.EqualBut (d.after m n i) l :=
  h.mono ⟨fun cell hcell => ⟨hcell, hw cell⟩, fun hd => hi.trans hd, id, id⟩

/-- Instructions that store nothing and neither set the index register nor
move a block leave the difference as it is. -/
theorem execute_of_keepsDifference (h : m.EqualBut d n) (hf : i.FindsSame d m n)
    (hi : i.keepsDifference = true) :
    SameOutcome (EqualBut d) (m.execute i) (n.execute i) := by
  cases i with
  | setIndex _ | pointGlyph _ | storeDecimal _ | storeBlock _ | loadBlock _ => cases hi
  | clearScreen =>
    have hcleared : EqualBut d { m with display := Display.blank, redraw := true }
        { n with display := Display.blank, redraw := true } :=
      { h with display := rfl, redraw := rfl }
    exact .ok hcleared.next
  | returnFromCall => exact h.returnFromCall
  | jump target => exact .ok (h.goTo _)
  | call target => exact h.call _
  | skipIfByte x byte => exact .ok (h.skipIf (by rw [h.v_eq]))
  | skipUnlessByte x byte => exact .ok (h.skipIf (by rw [h.v_eq]))
  | skipIfEqual x y => exact .ok (h.skipIf (by rw [h.v_eq, h.v_eq]))
  | skipUnlessEqual x y => exact .ok (h.skipIf (by rw [h.v_eq, h.v_eq]))
  | setByte x byte => exact .ok (h.setV x rfl).next
  | addByte x byte => exact .ok (h.setV x (by rw [h.v_eq])).next
  | arithmetic f x y =>
    exact .ok (h.compute f x y fun hs => hf.shifted (x, y) (if_pos hs)).next
  | jumpOffset target =>
    rw [Machine.execute, Machine.execute, h.v_eq]
    exact .ok (h.goTo _)
  | random x mask => exact .ok (h.drawRandom x mask).next
  | draw x y rows =>
    have hindex (hrows : 0 < rows.val) : m.index = n.index :=
      h.index (hf.index (decide_eq_true hrows))
    exact .ok (h.drawSprite x y rows hindex hf.cells).next
  | skipIfKey x => exact .ok (h.skipIf (by rw [← h.v_eq, hf.key x (.inl rfl)]))
  | skipUnlessKey x => exact .ok (h.skipIf (by rw [← h.v_eq, hf.key x (.inr rfl)]))
  | getDelay x => exact .ok (h.setV x h.delay).next
  | awaitKey x => exact .ok (h.awaitKey x (hf.lowestKey x rfl))
  | setDelay x =>
    have hset : EqualBut d { m with registers := { m.registers with delay := m.v x } }
        { n with registers := { n.registers with delay := n.v x } } :=
      { h with delay := h.v_eq x }
    exact .ok hset.next
  | setSound x =>
    have hset : EqualBut d { m with registers := { m.registers with sound := m.v x } }
        { n with registers := { n.registers with sound := n.v x } } :=
      { h with sound := h.v_eq x }
    exact .ok hset.next
  | addIndex x =>
    -- the index register is the same, so the sums are
    have hindex : m.index = n.index := h.index (hf.index rfl)
    have hadded : (m.setIndex (m.index + (m.v x).toUInt16)).EqualBut d
        (n.setIndex (n.index + (n.v x).toUInt16)) :=
      h.setIndex (by rw [hindex, h.v_eq]) d.index
    exact .ok hadded.next

/-- **An instruction that finds the same in two machines does the same to
both**: it fails on both, or leaves them equal but in what is left of their
difference. -/
theorem execute (h : m.EqualBut d n) (hf : i.FindsSame d m n) :
    SameOutcome (EqualBut (d.after m n i)) (m.execute i) (n.execute i) := by
  have hindex (hi : i.readsIndex = true) : m.index = n.index := h.index (hf.index hi)
  cases i with
  | setIndex target =>
    have hset := (h.setIndex (a := Address.toWord target) rfl false).next
    exact .ok (hset.mono ⟨fun cell hcell => ⟨hcell, id⟩, id, id, id⟩)
  | pointGlyph x =>
    have hset := (h.setIndex (congrArg Font.glyphAddress (h.v_eq x)) false).next
    exact .ok (hset.mono ⟨fun cell hcell => ⟨hcell, id⟩, id, id, id⟩)
  | storeDecimal x =>
    exact .ok (h.writeBlock (hindex rfl) (congrArg decimalDigits (h.v_eq x))).next
  | storeBlock x => exact .ok (h.storeBlock (hindex rfl) x).next
  | loadBlock x =>
    have hloaded := (h.loadBlock (hindex rfl) x hf.cells).next
    exact .ok (hloaded.mono ⟨fun cell hcell => ⟨hcell, id⟩, id, id, id⟩)
  | _ =>
    exact (h.execute_of_keepsDifference hf rfl).mono fun k l hk => hk.of_kept (fun _ => id) rfl

end EqualBut

end Machine

end Chip8
