import Chip8.Proofs.Lockstep
/-!
# Who sees the keys

Three instructions ask the keypad for something: whether one key is down,
or which is the lowest that is. So two machines that are equal but for the
keypad may have their keys pressed and let up in any way, each in its own,
and still go on in lockstep, as long as the keypad answers alike wherever
it is asked (`equalBut_run_of_withoutKeys`). The main result,
`keys_unseen_unless_asked`, says so of every point of two such histories.
-/

namespace Chip8

/-- Nothing but the keypad may differ. -/
def Difference.inKeypad : Difference where
  cells := ∅
  index := false
  keypad := true
  profile := false

namespace Machine

variable {m n : Machine} {a : Action} {i : Instruction} {actions others : List Action}

/-! ## Keys that are pressed and let up -/

/-- Whether an action is done to the keys. -/
def Action.isKey : Action → Bool
  | .setKeys _ | .press _ | .release _ => true
  | _ => false

/-- A list of actions without what is done to the keys. -/
def withoutKeys (actions : List Action) : List Action :=
  actions.filter fun a => !a.isKey

theorem withoutKeys_cons_of_isKey (ha : a.isKey = true) (actions : List Action) :
    withoutKeys (a :: actions) = withoutKeys actions :=
  List.filter_cons_of_neg (by rw [ha]; decide)

theorem withoutKeys_cons_of_not_isKey (ha : a.isKey = false) (actions : List Action) :
    withoutKeys (a :: actions) = a :: withoutKeys actions :=
  List.filter_cons_of_pos (by rw [ha]; rfl)

theorem withoutKeys_append (before after : List Action) :
    withoutKeys (before ++ after) = withoutKeys before ++ withoutKeys after :=
  List.filter_append ..

/-- What is done to the keys of the first machine alone goes unseen. -/
theorem EqualBut.act_left (h : m.EqualBut .inKeypad n) (ha : a.isKey = true) :
    (m.act a).EqualBut .inKeypad n := by
  cases a with
  | setKeys _ | press _ | release _ => exact { h with keypad := nofun }
  | _ => cases ha

/-- And so does what is done to those of the second. -/
theorem EqualBut.act_right (h : m.EqualBut .inKeypad n) (ha : a.isKey = true) :
    m.EqualBut .inKeypad (n.act a) := by
  cases a with
  | setKeys _ | press _ | release _ => exact { h with keypad := nofun }
  | _ => cases ha

theorem EqualBut.run_right (h : m.EqualBut .inKeypad n) (hk : ∀ a ∈ others, a.isKey = true) :
    m.EqualBut .inKeypad (n.run others) := by
  induction others generalizing n with
  | nil => exact h
  | cons a others ih =>
    rw [List.forall_mem_cons] at hk
    exact ih (h.act_right hk.1) hk.2

/-! ## What the keypad is asked -/

/-- **The keypads of two machines answer alike** what the next cycle of the
first asks: whether a key is down, of the key that a skip names by a
register, and which is the lowest that is down, if there is one, of a key
wait. -/
def AnswersAlike (m n : Machine) : Prop :=
  (∀ x, m.executed? .cycle = some (.skipIfKey x) ∨
      m.executed? .cycle = some (.skipUnlessKey x) →
    m.keypad.isPressed (m.v x) = n.keypad.isPressed (m.v x)) ∧
  ∀ x, m.executed? .cycle = some (.awaitKey x) → m.keypad.first? = n.keypad.first?

instance (m n : Machine) : Decidable (m.AnswersAlike n) :=
  inferInstanceAs (Decidable (_ ∧ _))

/-- Where the keypads answer alike, the next step finds the same. -/
theorem stepFindsSame_of_answersAlike (h : m.EqualBut .inKeypad n) (hf : m.fault = none)
    (hk : m.AnswersAlike n) : StepFindsSame .inKeypad m n where
  word _ := nofun
  instruction i hi := {
    cells := fun _ => nofun
    index := fun _ => rfl
    key := by
      rintro x (rfl | rfl)
      · exact hk.1 x (.inl (executed?_of_not_call hf hi nofun nofun))
      · exact hk.1 x (.inr (executed?_of_not_call hf hi nofun nofun))
    lowestKey := by
      rintro x rfl
      exact hk.2 x (executed?_of_not_call hf hi nofun nofun)
    shifted := fun _ _ => .inl (congrArg Profile.shiftReadsSecond (h.profile rfl)) }

/-- **An action of two machines whose keypads answer alike** has the same
reply and leaves them equal but for the keypad. -/
theorem EqualBut.perform_of_answersAlike (h : m.EqualBut .inKeypad n)
    (hk : a = .cycle → m.AnswersAlike n) :
    (m.perform a).1 = (n.perform a).1 ∧ (m.act a).EqualBut .inKeypad (n.act a) := by
  obtain ⟨hreply, hafter⟩ := h.perform fun ha hf => stepFindsSame_of_answersAlike h hf (hk ha)
  have hkept := Difference.inKeypad.afterAction_le (h.profile rfl) rfl a
  exact ⟨hreply, hafter.mono (hkept.trans ⟨fun cell hcell => hcell.1, id, id, id⟩)⟩

/-! ## Histories -/

/-- At every point that two histories have in common but for the keys so
far, the keypads answer alike. -/
def AlwaysAnswersAlike (m n : Machine) (actions others : List Action) : Prop :=
  ∀ before before', before ++ [.cycle] <+: actions → before' ++ [.cycle] <+: others →
    withoutKeys before = withoutKeys before' → (m.run before).AnswersAlike (n.run before')

/-- **Histories that differ in the keys alone go on in lockstep**, as long
as the keypads answer alike. -/
theorem equalBut_run_of_withoutKeys (h : m.EqualBut .inKeypad n)
    (hsame : withoutKeys actions = withoutKeys others)
    (hk : m.AlwaysAnswersAlike n actions others) :
    (m.run actions).EqualBut .inKeypad (n.run others) := by
  induction actions generalizing m n others with
  | nil =>
    have hkeys := List.filter_eq_nil_iff.1 hsame.symm
    exact h.run_right fun a ha => by simpa using hkeys a ha
  | cons a actions ih =>
    cases ha : a.isKey with
    | true =>
      rw [withoutKeys_cons_of_isKey ha] at hsame
      refine ih (h.act_left ha) hsame fun before before' hp hp' hbefore => ?_
      refine hk (a :: before) before' (List.cons_prefix_cons.2 ⟨rfl, hp⟩) hp' ?_
      rwa [withoutKeys_cons_of_isKey ha]
    | false =>
      -- the second history has keys up to its own `a`
      rw [withoutKeys_cons_of_not_isKey ha] at hsame
      obtain ⟨keys, rest, rfl, hkeys, -, hrest⟩ := List.filter_eq_cons_iff.1 hsame.symm
      have hkeys' : ∀ b ∈ keys, b.isKey = true := fun b hb => by simpa using hkeys b hb
      have hnone : withoutKeys keys = [] := List.filter_eq_nil_iff.2 hkeys
      have hnow : a = .cycle → m.AnswersAlike (n.run keys) := by
        rintro rfl
        exact hk [] keys (List.cons_prefix_cons.2 ⟨rfl, List.nil_prefix⟩)
          ((List.prefix_append_right_inj keys).2 (List.cons_prefix_cons.2 ⟨rfl, List.nil_prefix⟩))
          hnone.symm
      obtain ⟨-, hafter⟩ := (h.run_right hkeys').perform_of_answersAlike hnow
      rw [run_append, run_cons, run_cons]
      refine ih hafter hrest.symm fun before before' hp hp' hbefore => ?_
      have hlater := hk (a :: before) (keys ++ a :: before')
        (List.cons_prefix_cons.2 ⟨rfl, hp⟩)
        (by
          rw [List.append_assoc]
          exact (List.prefix_append_right_inj keys).2 (List.cons_prefix_cons.2 ⟨rfl, hp'⟩))
        (by
          rw [withoutKeys_append, hnone, List.nil_append, withoutKeys_cons_of_not_isKey ha,
            withoutKeys_cons_of_not_isKey ha, hbefore])
      rwa [run_append, run_cons, run_cons] at hlater

/-- **Nobody sees a key that is not asked for.** Take two machines that are
equal but for the keypad, and two histories that are the same but for what
is done to the keys, which may be anything and anywhere in either. If the
keypads answer alike at every cycle that both come to, then at every point
that both come to the machines are equal but for the keypad, and the next
action, if it is the same and not done to the keys, has the same reply in
both. -/
theorem keys_unseen_unless_asked (m n : Machine) (actions others : List Action)
    (h : m.EqualBut .inKeypad n) (hsame : withoutKeys actions = withoutKeys others)
    (hk : m.AlwaysAnswersAlike n actions others) :
    (m.run actions).EqualBut .inKeypad (n.run others) ∧
      ∀ before before', before <+: actions → before' <+: others →
        withoutKeys before = withoutKeys before' →
        (m.run before).EqualBut .inKeypad (n.run before') ∧
          ∀ a, a.isKey = false → before ++ [a] <+: actions → before' ++ [a] <+: others →
            ((m.run before).perform a).1 = ((n.run before').perform a).1 := by
  refine ⟨equalBut_run_of_withoutKeys h hsame hk, ?_⟩
  intro before before' hp hp' hbefore
  have hrun : (m.run before).EqualBut .inKeypad (n.run before') :=
    equalBut_run_of_withoutKeys h hbefore fun earlier earlier' he he' =>
      hk earlier earlier' (he.trans hp) (he'.trans hp')
  refine ⟨hrun, fun a _ ha ha' => (hrun.perform_of_answersAlike ?_).1⟩
  rintro rfl
  exact hk before before' ha ha' hbefore

/-- A program that skips if key 5 is up, waits for a key and counts up. -/
def keyAsker : List UInt8 :=
  [0x60, 0x05, 0xE0, 0xA1, 0x60, 0x00, 0xF1, 0x0A, 0x72, 0x01]

/-- The program does not see key 3, nor the keys above the one that it is
given. -/
theorem keys_unseen_unless_asked_keyAsker :
    let m := (powerOn 0 Profile.standard).act (.load keyAsker)
    let n := m.act (.press 0x3)
    let actions := [Action.cycle, .cycle, .press 0x7, .timerPeriod, .cycle, .cycle]
    let others := [Action.press 0x9, .cycle, .cycle, .release 0x3, .timerPeriod,
      .setKeys (Keypad.ofMask 0x280), .cycle, .cycle]
    (m.EqualBut .inKeypad n ∧ withoutKeys actions = withoutKeys others ∧
      m.AlwaysAnswersAlike n actions others) ∧
    (m.run actions).v 0x1 = 0x7 ∧ (m.run actions).v 0x2 = 0x1 ∧
    (m.run actions).EqualBut .inKeypad (n.run others) ∧
    (m.run actions).keypad ≠ (n.run others).keypad := by
  intro m n actions others
  have hequal : m.EqualBut .inKeypad n := (EqualBut.refl _ m).act_right rfl
  have hsame : withoutKeys actions = withoutKeys others := rfl
  have halike : m.AlwaysAnswersAlike n actions others := by
    have hplaces : ∀ k < actions.length, ∀ l < others.length,
        actions[k]? = some .cycle ∧ others[l]? = some .cycle ∧
          withoutKeys (actions.take k) = withoutKeys (others.take l) →
        (m.run (actions.take k)).AnswersAlike (n.run (others.take l)) := by
      decide +kernel
    intro before before' hp hp'
    revert before'
    revert before
    refine forall_before_iff.2 fun k hk ha => ?_
    exact forall_before_iff.2 fun l hl hb hbefore => hplaces k hk l hl ⟨ha, hb, hbefore⟩
  have hregisters : (m.run actions).v 0x1 = 0x7 ∧ (m.run actions).v 0x2 = 0x1 := by
    decide +kernel
  have hkeypad : (m.run actions).keypad ≠ (n.run others).keypad := by decide +kernel
  exact ⟨⟨hequal, hsame, halike⟩, hregisters.1, hregisters.2,
    (keys_unseen_unless_asked m n actions others hequal hsame halike).1, hkeypad⟩

end Machine

end Chip8
