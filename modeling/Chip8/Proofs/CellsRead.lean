import Chip8.Proofs.Lockstep
/-!
# Who sees a memory cell

A step looks at the two cells of the word at the program counter, and its
instruction at the cells it reads and at no others. So machines whose
memories differ in some cells go on in lockstep until a step reads one of
them. A cell that an instruction writes holds the same in both from then on,
and may be read again: what still differs are the cells of the start that no
instruction has written (`Machine.written`). The main result is
`cells_unseen_unless_read`.
-/

namespace Chip8

/-- Nothing but the bytes of some cells may differ. -/
def Difference.inCells (cells : Set Address) : Difference where
  cells := cells
  index := false
  keypad := false
  profile := false

namespace Machine

variable {m n : Machine} {cells : Set Address} {cell : Address} {a : Action}
  {before actions : List Action}

/-- With a block put into its memory a machine differs in the cells of the
block alone. -/
theorem equalBut_writeBlock (m : Machine) (start : UInt16) (block : List UInt8) :
    m.EqualBut (.inCells {cell | Address.InRow start block.length cell})
      { m with memory := m.memory.writeBlock start block } := by
  refine { EqualBut.refl _ m with memory := fun cell hcell => ?_ }
  rcases Memory.get_writeBlock_or m.memory start block cell with h | h
  · exact h.symm
  · exact absurd h hcell

/-! ## Cells that are read and written -/

/-- **The next step reads a cell**: there is no fault, and the cell is one of
the two at the program counter, or read by the instruction that stands
there. -/
def StepReads (m : Machine) (cell : Address) : Prop :=
  m.fault = none ∧ (Address.InRow m.pc 2 cell ∨
    ∃ i ∈ Instruction.decode? m.fetch, i.ReadsCell m.index cell)

instance (m : Machine) (cell : Address) : Decidable (m.StepReads cell) :=
  inferInstanceAs (Decidable (_ ∧ _))

/-- The cells that the instructions of a history write. -/
def written (m : Machine) : List Action → Set Address
  | [] => ∅
  | a :: actions =>
    {cell | ∃ i ∈ m.executed? a, i.WritesCell m.index cell} ∪ (m.act a).written actions

instance decidableMemWritten (cell : Address) :
    (m : Machine) → (actions : List Action) → Decidable (cell ∈ m.written actions)
  | _, [] => isFalse id
  | m, a :: actions =>
    have := decidableMemWritten cell (m.act a) actions
    inferInstanceAs (Decidable ((∃ i ∈ m.executed? a, i.WritesCell m.index cell) ∨
      cell ∈ (m.act a).written actions))

theorem mem_written_append_singleton :
    cell ∈ m.written (before ++ [a]) ↔
      cell ∈ m.written before ∨
        ∃ i ∈ (m.run before).executed? a, i.WritesCell (m.run before).index cell := by
  induction before generalizing m with
  | nil => exact or_comm
  | cons b before ih =>
    rw [List.cons_append, written, written, Set.mem_union, Set.mem_union, ih, or_assoc, run_cons]

/-! ## Lockstep -/

/-- Where the next step reads no cell that may differ, it finds the same. -/
theorem stepFindsSame_of_not_stepReads (h : m.EqualBut (.inCells cells) n) (hf : m.fault = none)
    (hr : ∀ cell ∈ cells, ¬m.StepReads cell) : StepFindsSame (.inCells cells) m n where
  word cell hcell hrow := hr cell hcell ⟨hf, .inl hrow⟩
  instruction i hi := {
    cells := fun cell hcell hread => hr cell hcell ⟨hf, .inr ⟨i, hi, hread⟩⟩
    index := fun _ => rfl
    key := fun x _ => by rw [h.keypad rfl]
    lowestKey := fun x _ => by rw [h.keypad rfl]
    shifted := fun _ _ => .inl (congrArg Profile.shiftReadsSecond (h.profile rfl)) }

/-- **Nobody sees a memory cell that is not read.** Take two machines that
are equal but for some memory cells, and any actions. If no step reads one
of these cells unless an instruction has written it before, then the machines
reply alike, and after every action they are equal but for those of the
cells that no instruction has written. -/
theorem cells_unseen_unless_read (m n : Machine) (cells : Set Address) (actions : List Action)
    (h : m.EqualBut (.inCells cells) n)
    (hr : ∀ before, before ++ [.cycle] <+: actions →
      ∀ cell ∈ cells \ m.written before, ¬(m.run before).StepReads cell) :
    m.replies actions = n.replies actions ∧
      ∀ before, before <+: actions →
        (m.run before).EqualBut (.inCells (cells \ m.written before)) (n.run before) := by
  have hlockstep : ∀ before, before <+: actions →
      m.replies before = n.replies before ∧
        (m.run before).EqualBut (.inCells (cells \ m.written before)) (n.run before) := by
    intro before hbefore
    refine EqualBut.run (d := fun before => .inCells (cells \ m.written before)) ?_ ?_ ?_
    · exact h.mono ⟨fun cell hcell => ⟨hcell, id⟩, id, id, id⟩
    · intro earlier a _
      have hp : (m.run earlier).profile = (n.run earlier).profile := by
        rw [(m.seed_profile_run earlier).2, (n.seed_profile_run earlier).2, h.profile rfl]
      refine ((Difference.inCells _).afterAction_le hp rfl a).trans ⟨?_, id, id, id⟩
      rintro cell ⟨⟨hcell, hbefore⟩, hnow⟩
      exact ⟨hcell, fun hw => (mem_written_append_singleton.1 hw).elim hbefore hnow⟩
    · intro earlier hearlier hf hequal
      exact stepFindsSame_of_not_stepReads hequal hf (hr earlier (hearlier.trans hbefore))
  exact ⟨(hlockstep actions List.prefix_rfl).1, fun before hp => (hlockstep before hp).2⟩

/-- A program that stores the digits of a byte behind itself, loads them, and
draws two of them as a sprite, over and over. -/
def digitStorer : List UInt8 :=
  [0x60, 0x2A, 0xA2, 0x0E, 0xF0, 0x33, 0xF2, 0x65, 0xD0, 0x12, 0x12, 0x00]

/-- The program does not see what was in the three cells before it stores
the digits there, and never what is in the cell behind them. -/
theorem cells_unseen_unless_read_digitStorer :
    let m := (powerOn 0 Profile.modern).act (.load digitStorer)
    let n := { m with memory := m.memory.writeBlock 0x20E [0x11, 0x22, 0x33, 0x44] }
    let cells : Set Address := {cell | Address.InRow 0x20E 4 cell}
    let actions := [Action.cycle, .cycle, .press 0x3, .cycle, .timerPeriod, .cycle, .cycle, .cycle]
    (m.EqualBut (.inCells cells) n ∧
      ∀ before, before ++ [.cycle] <+: actions →
        ∀ cell ∈ cells \ m.written before, ¬(m.run before).StepReads cell) ∧
    m.replies actions = n.replies actions ∧
    (m.run actions).EqualBut (.inCells (cells \ m.written actions)) (n.run actions) ∧
    (∀ k < 3, Address.ofWord (0x20E + UInt16.ofNat k) ∈ m.written actions) ∧
    (m.run actions).memory.read 0x211 = 0x0 ∧ (n.run actions).memory.read 0x211 = 0x44 := by
  intro m n cells actions
  have hequal : m.EqualBut (.inCells cells) n :=
    equalBut_writeBlock m 0x20E [0x11, 0x22, 0x33, 0x44]
  have hunread : ∀ before, before ++ [.cycle] <+: actions →
      ∀ cell ∈ cells \ m.written before, ¬(m.run before).StepReads cell := by
    have hplaces : ∀ k < actions.length, actions[k]? = some .cycle →
        ∀ l < 4, Address.ofWord (0x20E + UInt16.ofNat l) ∉ m.written (actions.take k) →
          ¬(m.run (actions.take k)).StepReads (Address.ofWord (0x20E + UInt16.ofNat l)) := by
      decide +kernel
    refine forall_before_iff.2 ?_
    rintro k hk ha cell ⟨⟨l, hl, rfl⟩, hwritten⟩
    exact hplaces k hk ha l hl hwritten
  obtain ⟨hwritten, hbyte, hbyte'⟩ :
      (∀ k < 3, Address.ofWord (0x20E + UInt16.ofNat k) ∈ m.written actions) ∧
        (m.run actions).memory.read 0x211 = 0x0 ∧ (n.run actions).memory.read 0x211 = 0x44 := by
    decide +kernel
  obtain ⟨hreplies, hbefore⟩ := cells_unseen_unless_read m n cells actions hequal hunread
  exact ⟨⟨hequal, hunread⟩, hreplies, hbefore actions List.prefix_rfl, hwritten, hbyte, hbyte'⟩

end Machine

end Chip8
