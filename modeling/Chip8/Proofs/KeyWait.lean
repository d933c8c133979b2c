import Chip8.Proofs.Footprint
/-!
# What it means that the machine waits for a key

The flag `awaitingKey` is raised and lowered by the key wait alone. While
it is up, and the program is left in place, the machine stands at a key
wait: the program counter does not move and nothing can fail
(`FlagAtWait.act`). A program that is loaded in the meantime is the one
thing that can take the word away from under the program counter
(`load_takes_wait_away`), and the main result, `awaitingKey_iff`, says that
this is all that can come between the flag and what it stands for.
-/

namespace Chip8

namespace Machine

variable {m n : Machine} {a : Action} {actions : List Action}

/-- The machine stands at a key wait: there is no fault, the word at the
program counter is a key wait, and the next cycle executes it. -/
def AtKeyWait (m : Machine) : Prop :=
  m.fault = none ∧ ∃ x, Instruction.decode? m.fetch = some (.awaitKey x) ∧
    m.executed? .cycle = some (.awaitKey x)

/-- The flag is up only where the machine stands at a key wait. -/
def FlagAtWait (m : Machine) : Prop :=
  m.awaitingKey = true → m.AtKeyWait

/-- A key wait goes through, key or no key. -/
theorem atKeyWait_iff :
    m.AtKeyWait ↔ m.fault = none ∧ ∃ x, Instruction.decode? m.fetch = some (.awaitKey x) := by
  constructor
  · rintro ⟨hf, x, hi, -⟩
    exact ⟨hf, x, hi⟩
  · rintro ⟨hf, x, hi⟩
    exact ⟨hf, x, hi, (executed?_cycle_eq_some_iff rfl).2 ⟨hf, hi⟩⟩

/-- Whether a machine stands at a key wait is a matter of its fault and the
word at its program counter. -/
theorem AtKeyWait.congr (h : m.AtKeyWait) (hfault : n.fault = m.fault)
    (hfetch : n.fetch = m.fetch) : n.AtKeyWait := by
  rw [atKeyWait_iff, hfault, hfetch]
  exact atKeyWait_iff.1 h

/-! ## One action -/

/-- A cycle that leaves the flag up executed a key wait and found no key, so
that the machine is where it was. -/
theorem atKeyWait_act_cycle (h : m.FlagAtWait) : (m.act .cycle).FlagAtWait := by
  intro hup
  cases hx : m.executed? .cycle with
  | none =>
    -- nothing executed: the flag was up before, where a key wait does execute
    rw [(sameCourse_act (a := .cycle) nofun hx).awaitingKey] at hup
    obtain ⟨-, x, -, hwait⟩ := h hup
    rw [hx] at hwait
    cases hwait
  | some i =>
    obtain ⟨-, hf, hi, hexecute⟩ := executed?_eq_some_iff.1 hx
    obtain ⟨x, rfl⟩ : ∃ x, i = .awaitKey x := by
      rcases (framed_of_execute hexecute).awaitingKey with hsame | hwait
      · rw [hsame] at hup
        obtain ⟨-, x, -, hwait⟩ := h hup
        rw [hx, Option.some.injEq] at hwait
        exact ⟨x, hwait⟩
      · exact hwait
    have hafter : m.awaitKey x = m.act .cycle := Except.ok.inj hexecute
    rw [← hafter] at hup ⊢
    unfold awaitKey at hup ⊢
    cases hkey : m.keypad.first? with
    | some key =>
      rw [hkey] at hup
      cases hup
    | none => exact atKeyWait_iff.2 ⟨hf, x, hi⟩

/-- Loading a program leaves the flag alone. -/
theorem awaitingKey_act_load (m : Machine) (program : List UInt8) :
    (m.act (.load program)).awaitingKey = m.awaitingKey :=
  (sameCourse_act (a := .load program) nofun (executed?_of_ne_cycle nofun)).awaitingKey

/-- **The flag stays with its key wait under every action**, a load apart
that takes the word away. -/
theorem FlagAtWait.act (h : m.FlagAtWait)
    (hload : ∀ program, a = .load program → m.awaitingKey = true →
      (m.act (.load program)).AtKeyWait) : (m.act a).FlagAtWait := by
  cases a with
  | load program =>
    intro hup
    rw [awaitingKey_act_load] at hup
    exact hload program rfl hup
  | reset => exact nofun
  | cycle => exact atKeyWait_act_cycle h
  | _ => exact fun hup => (h hup).congr rfl rfl

/-! ## Histories -/

/-- And so it does along a history. -/
theorem FlagAtWait.run (h : m.FlagAtWait)
    (hload : ∀ before program, before ++ [.load program] <+: actions →
      (m.run before).awaitingKey = true →
      ((m.run before).act (.load program)).AtKeyWait) : (m.run actions).FlagAtWait := by
  induction actions generalizing m with
  | nil => exact h
  | cons a actions ih =>
    refine ih (h.act ?_) fun before program hp hup => ?_
    · rintro program rfl
      exact hload [] program (List.cons_prefix_cons.2 ⟨rfl, List.nil_prefix⟩)
    · exact hload (a :: before) program (List.cons_prefix_cons.2 ⟨rfl, hp⟩) hup

/-- **The flag means what it says exactly as long as no load takes the key
wait away.** Along a history from power-on the flag is up only where the
machine stands at a key wait, if and only if every program loaded while the
flag is up leaves a key wait at the program counter. -/
theorem awaitingKey_iff (seed : UInt64) (profile : Profile) (actions : List Action) :
    (∀ before, before <+: actions → ((powerOn seed profile).run before).FlagAtWait) ↔
      ∀ before program, before ++ [.load program] <+: actions →
        ((powerOn seed profile).run before).awaitingKey = true →
        (((powerOn seed profile).run before).act (.load program)).AtKeyWait := by
  constructor
  · intro h before program hp hup
    have hafter := h _ hp
    rw [run_append, run_cons, run_nil] at hafter
    exact hafter ((awaitingKey_act_load _ program).trans hup)
  · intro hload before hbefore
    have hstart : (powerOn seed profile).FlagAtWait := nofun
    exact hstart.run fun earlier program hp => hload earlier program (hp.trans hbefore)

/-- A program that waits for a key. -/
def waitForKey : List UInt8 := [0xF0, 0x0A]

/-- **A load can take the key wait away from under the flag**: the machine
still says that it waits, with another instruction at the program counter,
which the next cycle executes. -/
theorem load_takes_wait_away :
    ¬∀ (seed : UInt64) (profile : Profile) (actions : List Action),
      ((powerOn seed profile).run actions).FlagAtWait := by
  intro h
  have hflag := h 1 Profile.standard [.load waitForKey, .cycle, .load [0x00, 0xE0]]
  obtain ⟨-, x, hwait, -⟩ := hflag (by decide +kernel)
  have hclear : Instruction.decode? ((powerOn 1 Profile.standard).run
      [.load waitForKey, .cycle, .load [0x00, 0xE0]]).fetch = some .clearScreen := by
    decide +kernel
  rw [hclear] at hwait
  cases hwait

end Machine

end Chip8
