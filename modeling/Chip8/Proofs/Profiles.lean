import Chip8.Proofs.Replies
/-!
# Programs that do not depend on the profile

The profile has a say in shifts and in block moves. A shift with the same
byte in both registers does not tell which of them it read, and where a
block move left the index register does not matter until an instruction
goes by it. `Instruction.indexApart` follows from when to when the register
may differ between two machines. As long as no instruction tells
(`Machine.Indifferent`), machines of any two profiles go on in lockstep
(`EqualBut.run_of_indifferent`), and so do the consoles that drive them
(`profile_unseen_unless_asked`).
-/

namespace Chip8

/-- Nothing but the profile and, if so, the index register may differ. -/
def Difference.inProfile (apart : Bool) : Difference where
  cells := ∅
  index := apart
  keypad := false
  profile := true

namespace Instruction

variable {p q : Profile} {instructions : List Instruction} {i : Instruction} {apart : Bool}

/-! ## From when to when the index register may differ -/

/-- Whether the index register may differ between machines of two profiles
that were equal otherwise and have executed a list of instructions. -/
def indexApart (p q : Profile) (instructions : List Instruction) : Bool :=
  instructions.foldl (leavesIndexApart p q) false

theorem indexApart_append_singleton (p q : Profile) (instructions : List Instruction)
    (i : Instruction) :
    indexApart p q (instructions ++ [i]) =
      i.leavesIndexApart p q (indexApart p q instructions) := by
  rw [indexApart, List.foldl_append]
  rfl

/-- Whether an instruction sets the index register to an address that it
names. -/
def setsIndex : Instruction → Bool
  | setIndex _ | pointGlyph _ => true
  | _ => false

/-- What it takes for the index register to differ: the instruction moved a
block, on which the profiles disagree, or the register differed before, and
the instruction did not set it. -/
theorem leavesIndexApart_eq_true_iff :
    i.leavesIndexApart p q apart = true ↔
      ((∃ x, i = .storeBlock x) ∧ p.storeAdvancesIndex ≠ q.storeAdvancesIndex ∨
        (∃ x, i = .loadBlock x) ∧ p.loadAdvancesIndex ≠ q.loadAdvancesIndex) ∨
      apart = true ∧ i.setsIndex = false := by
  cases i with
  | setIndex _ | pointGlyph _ => simp [leavesIndexApart, setsIndex]
  | storeBlock _ | loadBlock _ =>
    simp only [leavesIndexApart, setsIndex, Bool.or_eq_true, bne_iff_ne]
    simp [or_comm]
  | _ => simp [leavesIndexApart, setsIndex]

/-- **From when to when the index register may differ**: from a block move on
which the profiles disagree until it is set to an address. -/
theorem indexApart_eq_true_iff :
    indexApart p q instructions = true ↔
      ∃ before i after, instructions = before ++ i :: after ∧
        ((∃ x, i = .storeBlock x) ∧ p.storeAdvancesIndex ≠ q.storeAdvancesIndex ∨
          (∃ x, i = .loadBlock x) ∧ p.loadAdvancesIndex ≠ q.loadAdvancesIndex) ∧
        ∀ j ∈ after, j.setsIndex = false := by
  induction instructions using List.reverseRecOn with
  | nil => simp [indexApart]
  | append_singleton earlier last ih =>
    rw [indexApart_append_singleton, leavesIndexApart_eq_true_iff, ih]
    constructor
    · rintro (hmoves | ⟨⟨before, i, after, rfl, hmoves, hafter⟩, hlast⟩)
      · exact ⟨earlier, last, [], rfl, hmoves, nofun⟩
      · refine ⟨before, i, after ++ [last], by simp, hmoves, ?_⟩
        simpa [or_imp, forall_and, hlast] using hafter
    · rintro ⟨before, i, after, hsplit, hmoves, hafter⟩
      -- the move is the last instruction, or comes before it
      rcases List.eq_nil_or_concat after with rfl | ⟨between, j, rfl⟩
      · obtain ⟨-, hlast⟩ := List.append_inj' hsplit rfl
        rw [List.singleton_inj.1 hlast]
        exact .inl hmoves
      · rw [List.concat_eq_append, ← List.cons_append, ← List.append_assoc] at hsplit
        obtain ⟨rfl, hlast⟩ := List.append_inj' hsplit rfl
        obtain rfl := List.singleton_inj.1 hlast
        rw [List.concat_eq_append] at hafter
        refine .inr ⟨⟨before, i, between, rfl, hmoves, fun k hk => ?_⟩, ?_⟩
        · exact hafter k (List.mem_append_left _ hk)
        · exact hafter last (List.mem_append_right _ (List.mem_singleton_self last))

/-- **An instruction is indifferent to another profile**: where the two
profiles disagree on shifts, it does not shift between registers that
differ, and where the index register may differ, it does not go by it. -/
def Indifferent (m : Machine) (q : Profile) (apart : Bool) (i : Instruction) : Prop :=
  (∀ r ∈ i.shifted?, m.profile.shiftReadsSecond ≠ q.shiftReadsSecond → m.v r.1 = m.v r.2) ∧
    (i.readsIndex = true → apart = false)

instance (m : Machine) (q : Profile) (apart : Bool) (i : Instruction) :
    Decidable (i.Indifferent m q apart) :=
  inferInstanceAs (Decidable (_ ∧ _))

end Instruction

namespace Machine

variable {m n : Machine} {apart : Bool} {a : Action} {actions : List Action}

/-- Every instruction that a history executes is indifferent to another
profile. -/
def Indifferent (m : Machine) (q : Profile) (actions : List Action) : Prop :=
  ∀ before, before ++ [.cycle] <+: actions → ∀ i ∈ (m.run before).executed? .cycle,
    i.Indifferent (m.run before) q (Instruction.indexApart m.profile q (m.executed before))

/-- Where the next instruction is indifferent, the next step finds the
same. -/
theorem stepFindsSame_of_indifferent (h : m.EqualBut (.inProfile apart) n) (hf : m.fault = none)
    (hi : ∀ i ∈ m.executed? .cycle, i.Indifferent m n.profile apart) :
    StepFindsSame (.inProfile apart) m n where
  word _ := nofun
  instruction i hdecode := {
    cells := fun _ => nofun
    index := by
      intro hreads
      refine (hi i (executed?_of_not_call hf hdecode ?_ ?_)).2 hreads
      · rintro target rfl
        cases hreads
      · rintro rfl
        cases hreads
    key := fun x _ => by rw [h.keypad rfl]
    lowestKey := fun x _ => by rw [h.keypad rfl]
    shifted := by
      intro r hr
      have hx : m.executed? .cycle = some i := by
        refine executed?_of_not_call hf hdecode ?_ ?_
        · rintro target rfl
          cases hr
        · rintro rfl
          cases hr
      by_cases hp : m.profile.shiftReadsSecond = n.profile.shiftReadsSecond
      · exact .inl hp
      · exact .inr ((hi i hx).1 r hr hp) }

/-- What an action leaves of the difference between profiles. -/
theorem afterAction_inProfile_le (m n : Machine) (a : Action) (p q : Profile)
    (hp : m.profile = p) (hq : n.profile = q) (instructions : List Instruction) :
    (Difference.inProfile (Instruction.indexApart p q instructions)).afterAction m n a ≤
      .inProfile (Instruction.indexApart p q (instructions ++ (m.executed? a).toList)) := by
  rw [Difference.afterAction]
  cases m.executed? a with
  | none =>
    rw [Option.toList_none, List.append_nil]
    exact le_rfl
  | some i =>
    rw [Option.toList_some, Instruction.indexApart_append_singleton, ← hp, ← hq]
    exact ⟨fun cell hcell => hcell.1, id, id, id⟩

/-- **Machines of two profiles go on in lockstep** through a history whose
instructions are all indifferent. -/
theorem EqualBut.run_of_indifferent (h : m.EqualBut (.inProfile false) n)
    (hi : m.Indifferent n.profile actions) :
    m.replies actions = n.replies actions ∧
      (m.run actions).EqualBut
        (.inProfile (Instruction.indexApart m.profile n.profile (m.executed actions)))
        (n.run actions) := by
  refine EqualBut.run (d := fun before =>
    .inProfile (Instruction.indexApart m.profile n.profile (m.executed before))) h ?_ ?_
  · intro before a _
    have hexecuted : m.executed (before ++ [a]) =
        m.executed before ++ ((m.run before).executed? a).toList := by
      rw [executed_append, executed_cons, executed_nil, List.append_nil]
    rw [hexecuted]
    exact afterAction_inProfile_le _ _ a _ _ (m.seed_profile_run before).2
      (n.seed_profile_run before).2 _
  · intro before hbefore hf hequal
    refine stepFindsSame_of_indifferent hequal hf ?_
    rw [(n.seed_profile_run before).2]
    exact hi before hbefore

end Machine

namespace Console

/-- **Nobody sees the profile that does not ask for it.** Take two consoles
that are equal but for the profile, and any commands. Let every instruction
that they execute be indifferent: no shift between registers that differ
where the profiles disagree on shifts, and none that goes by the index
register from a block move on which they disagree until the register is
set. Then both give the same replies, and after every command, and after
every action that a command comes down to, they are equal but for the
profile and, in between such a block move and such an address, the index
register. -/
theorem profile_unseen_unless_asked (s t : Console) (commands : List Command)
    (hclock : s.clock = t.clock) (h : s.machine.EqualBut (.inProfile false) t.machine)
    (hi : s.machine.Indifferent t.machine.profile (s.runActions commands)) :
    let apart := Instruction.indexApart s.machine.profile t.machine.profile
    s.replies commands = t.replies commands ∧
      (∀ before, before <+: commands →
        (s.run before).clock = (t.run before).clock ∧
          (s.run before).machine.EqualBut (.inProfile (apart (s.executed before)))
            (t.run before).machine) ∧
      s.runActions commands = t.runActions commands ∧
      ∀ before, before <+: s.runActions commands →
        s.machine.replies before = t.machine.replies before ∧
          (s.machine.run before).EqualBut (.inProfile (apart (s.machine.executed before)))
            (t.machine.run before) := by
  intro apart
  have hactions : ∀ before, before <+: s.runActions commands →
      s.machine.replies before = t.machine.replies before ∧
        (s.machine.run before).EqualBut (.inProfile (apart (s.machine.executed before)))
          (t.machine.run before) := fun before hp =>
    h.run_of_indifferent fun earlier he => hi earlier (he.trans hp)
  obtain ⟨hsame, hreplies, -⟩ := replies_congr hclock (hactions _ List.prefix_rfl).1
  refine ⟨hreplies, fun before hp => ?_, hsame, hactions⟩
  obtain ⟨after, rfl⟩ := hp
  obtain ⟨hsofar, hequal⟩ := hactions (s.runActions before) (by
    rw [runActions_append]
    exact List.prefix_append _ _)
  obtain ⟨hsame', -, hclocks⟩ := replies_congr hclock hsofar
  refine ⟨hclocks, ?_⟩
  rw [machine_run, machine_run, ← hsame', executed]
  exact hequal

/-- A program that shifts between equal registers, stores a block, draws
nothing from where that left the index register, and sets it again before
it loads. -/
def profileBlind : List UInt8 :=
  [0x80, 0x16, 0xA3, 0x00, 0xF1, 0x55, 0xD0, 0x10, 0xA3, 0x00, 0xF0, 0x65]

/-- Under two profiles that disagree on shifts and on storing, the index
registers of the program differ for a while and are equal in the end. -/
theorem profile_unseen_unless_asked_profileBlind :
    let s : Console := ⟨(Machine.powerOn 0 Profile.vip).act (.load profileBlind),
      Clock.withRates 500 60⟩
    let t : Console := ⟨(Machine.powerOn 0 Profile.standard).act (.load profileBlind),
      Clock.withRates 500 60⟩
    let commands := [Command.runSteps 4, .machine (.press 0x3), .runFor (Elapsed.ofParts 0 4000000)]
    (s.clock = t.clock ∧ s.machine.EqualBut (.inProfile false) t.machine ∧
      s.machine.Indifferent t.machine.profile (s.runActions commands)) ∧
    s.replies commands = t.replies commands ∧
    (s.run [.runSteps 4]).machine.index = 0x302 ∧
    (t.run [.runSteps 4]).machine.index = 0x300 ∧
    (s.run commands).machine.EqualBut (.inProfile false) (t.run commands).machine := by
  intro s t commands
  have hequal : s.machine.EqualBut (.inProfile false) t.machine := by
    have hon : (Machine.powerOn 0 Profile.vip).EqualBut (.inProfile false)
        (Machine.powerOn 0 Profile.standard) :=
      { Machine.EqualBut.refl _ (Machine.powerOn 0 Profile.standard) with profile := nofun }
    exact (hon.load profileBlind).2
  have hindifferent : s.machine.Indifferent t.machine.profile (s.runActions commands) := by
    refine forall_before_iff.2 ?_
    decide +kernel
  obtain ⟨hindex, hindex', hsettled⟩ :
      (s.run [.runSteps 4]).machine.index = 0x302 ∧
        (t.run [.runSteps 4]).machine.index = 0x300 ∧
        Instruction.indexApart s.machine.profile t.machine.profile (s.executed commands) =
          false := by
    decide +kernel
  obtain ⟨hreplies, hbefore, -⟩ :=
    profile_unseen_unless_asked s t commands rfl hequal hindifferent
  have hlast := (hbefore commands List.prefix_rfl).2
  rw [hsettled] at hlast
  exact ⟨⟨rfl, hequal, hindifferent⟩, hreplies, hindex, hindex', hlast⟩

end Console

end Chip8
