import Chip8.Proofs.KeyWait
import Chip8.Proofs.KeysAsked
/-!
# How long a wait for a key lasts, and what it leaves behind

The key wait is the one instruction that may take more than a cycle. While
no key is down, its cycles do nothing but raise the wait flag
(`cycle_of_noneDown`). So the machine stays at its word through timer
periods and whatever is done to the keys in between (`exists_run_eq_idled`),
says once that it waits (`saysAwaiting_runNotices`), and is afterwards, but
for the keys that are down, as if nothing had been done to them
(`withKeys_run`). The first cycle that finds a key down takes the lowest and
goes on (`cycle_of_lowest`).
-/

namespace Chip8

/-! ## The words with which a wait begins -/

namespace Notice

/-- A notice says that the machine waits for a key. -/
def SaysAwaiting (pc : UInt16) (n : Notice) : Prop :=
  n.message = atPc pc "awaiting key"

instance (pc : UInt16) (n : Notice) : Decidable (n.SaysAwaiting pc) :=
  inferInstanceAs (Decidable (n.message = atPc pc "awaiting key"))

theorem atPc_inj {pc : UInt16} {s t : String} (h : atPc pc s = atPc pc t) : s = t :=
  (String.append_right_inj _).1 h

/-- The instruction itself is announced in other words. -/
theorem not_saysAwaiting_executing (pc : UInt16) (x : Digit) :
    ¬(executing pc (.awaitKey x)).SaysAwaiting pc := by
  have hmnemonic : (Instruction.awaitKey x).mnemonic ≠ "awaiting key" := by
    revert x
    decide
  exact fun h => hmnemonic (atPc_inj h)

/-- And so are the timers, from the first character on. -/
theorem not_saysAwaiting_timers (pc : UInt16) (delay sound : UInt8) :
    ¬(timers delay sound).SaysAwaiting pc := by
  intro h
  have hwords : "cycle_timers, dt=" ++ toString delay.toNat ++ ", st=" ++
      toString sound.toNat = atPc pc "awaiting key" := h
  have hbracket : (atPc pc "awaiting key").toList.head? = some '[' := by
    simp only [atPc, String.append_assoc, String.toList_append]
    rfl
  rw [← hwords] at hbracket
  simp only [String.append_assoc, String.toList_append] at hbracket
  cases hbracket

end Notice

namespace Machine

variable {m : Machine} {x : Digit} {a : Action} {actions before after : List Action}

/-! ## One cycle of a wait -/

/-- The machine stands at the wait for a key that is to go into a register. -/
def AtWaitFor (m : Machine) (x : Digit) : Prop :=
  m.fault = none ∧ Instruction.decode? m.fetch = some (.awaitKey x)

/-- A cycle that finds no key down raises the wait flag, and that is all. -/
theorem cycle_of_noneDown (h : m.AtWaitFor x) (hk : m.keypad.NoneDown) :
    m.cycle = (.ok (), { m with awaitingKey := true }) := by
  have hwait : m.awaitKey x = { m with awaitingKey := true } := by
    rw [awaitKey, Keypad.first?_eq_none_iff.2 hk]
  exact cycle_of_step_ok h.1 (step_eq_ok_iff.2 ⟨_, h.2, congrArg Except.ok hwait⟩)

/-- **A cycle that finds a key down** puts the lowest into the register,
lowers the wait flag and goes on to the next word. -/
theorem cycle_of_lowest (h : m.AtWaitFor x) {key : Digit} (hk : m.keypad.Lowest key) :
    m.cycle = (.ok (), ({ m with awaitingKey := false }.setV x (Digit.toByte key)).next) := by
  have hwait : m.awaitKey x =
      ({ m with awaitingKey := false }.setV x (Digit.toByte key)).next := by
    rw [awaitKey, Keypad.first?_eq_some_iff.2 hk]
  exact cycle_of_step_ok h.1 (step_eq_ok_iff.2 ⟨_, h.2, congrArg Except.ok hwait⟩)

theorem exists_lowest {k : Keypad} (h : ¬k.NoneDown) : ∃ key, k.Lowest key := by
  cases hk : k.first? with
  | none => exact absurd (Keypad.first?_eq_none_iff.1 hk) h
  | some key => exact ⟨key, Keypad.first?_eq_some_iff.1 hk⟩

/-- What such a cycle reports: the instruction, and that the wait begins if
it does. -/
theorem notices_cycle_of_noneDown (h : m.AtWaitFor x) (hk : m.keypad.NoneDown) :
    m.notices .cycle = .executing m.pc (.awaitKey x) ::
      if m.awaitingKey then [] else [.awaitingKey m.pc] := by
  have hstep : m.step = .ok (m.awaitKey x) := step_eq_ok_iff.2 ⟨_, h.2, rfl⟩
  rw [notices, cycleNotices, h.1, h.2, hstep]
  simp only [Option.elim_some, executionNotices, Keypad.first?_eq_none_iff.2 hk, List.append_nil]

/-! ## Actions during a wait -/

/-- Whether an action may come in a wait: it is a cycle, a timer period, or
done to the keys. -/
def Action.fitsWait : Action → Bool
  | .cycle | .timerPeriod => true
  | a => a.isKey

/-- The actions leave a machine that waits where it is: they may all come in
a wait, and no key is down at any cycle. -/
def WaitsThrough (m : Machine) : List Action → Prop
  | [] => True
  | a :: actions =>
    a.fitsWait = true ∧ (a = .cycle → m.keypad.NoneDown) ∧ (m.act a).WaitsThrough actions

instance decidableWaitsThrough : (m : Machine) → (actions : List Action) →
    Decidable (m.WaitsThrough actions)
  | _, [] => inferInstanceAs (Decidable True)
  | m, a :: actions =>
    have := decidableWaitsThrough (m.act a) actions
    inferInstanceAs (Decidable (_ ∧ _ ∧ _))

theorem waitsThrough_append :
    m.WaitsThrough (before ++ after) ↔
      m.WaitsThrough before ∧ (m.run before).WaitsThrough after := by
  induction before generalizing m with
  | nil => simp only [List.nil_append, WaitsThrough, run_nil, true_and]
  | cons a before ih => simp only [List.cons_append, WaitsThrough, ih, run_cons, and_assoc]

/-- The machine with other timers, other keys and another wait flag. -/
def idled (m : Machine) (delay sound : UInt8) (keypad : Keypad) (awaitingKey : Bool) : Machine :=
  { m with
    registers := { m.registers with delay := delay, sound := sound }
    keypad := keypad
    awaitingKey := awaitingKey }

theorem AtWaitFor.idled (h : m.AtWaitFor x) (delay sound : UInt8) (keypad : Keypad)
    (awaitingKey : Bool) : (m.idled delay sound keypad awaitingKey).AtWaitFor x := h

/-- **An action during a wait** changes nothing but the timers, the keys and
the wait flag, which a cycle raises. -/
theorem exists_act_eq_idled (h : m.AtWaitFor x) (ha : a.fitsWait = true)
    (hk : a = .cycle → m.keypad.NoneDown) :
    ∃ delay sound keypad,
      m.act a = m.idled delay sound keypad (m.awaitingKey || decide (a = .cycle)) := by
  cases a with
  | cycle =>
    refine ⟨m.registers.delay, m.registers.sound, m.keypad, ?_⟩
    rw [act_cycle, cycle_of_noneDown h (hk rfl), decide_eq_true rfl, Bool.or_true]
    rfl
  | timerPeriod | setKeys _ | press _ | release _ =>
    rw [decide_eq_false nofun, Bool.or_false]
    exact ⟨_, _, _, rfl⟩
  | _ => cases ha

/-! ## The whole wait -/

/-- **A wait leaves the machine where it is**, however long it lasts. -/
theorem exists_run_eq_idled (h : m.AtWaitFor x) (hw : m.WaitsThrough actions) :
    ∃ delay sound keypad,
      m.run actions =
        m.idled delay sound keypad (m.awaitingKey || decide (.cycle ∈ actions)) := by
  induction actions generalizing m with
  | nil =>
    refine ⟨m.registers.delay, m.registers.sound, m.keypad, ?_⟩
    rw [decide_eq_false List.not_mem_nil, Bool.or_false]
    rfl
  | cons a actions ih =>
    obtain ⟨ha, hk, hrest⟩ := hw
    obtain ⟨delay, sound, keypad, hact⟩ := exists_act_eq_idled h ha hk
    rw [hact] at hrest
    obtain ⟨delay', sound', keypad', hrun⟩ := ih (h.idled _ _ _ _) hrest
    refine ⟨delay', sound', keypad', ?_⟩
    rw [run_cons, hact, hrun]
    have hflag : (m.awaitingKey || decide (a = .cycle) || decide (.cycle ∈ actions)) =
        (m.awaitingKey || decide (.cycle ∈ a :: actions)) := by
      simp only [List.mem_cons, Bool.decide_or, Bool.or_assoc, eq_comm (a := Action.cycle)]
    rw [← hflag]
    rfl

theorem AtWaitFor.run (h : m.AtWaitFor x) (hw : m.WaitsThrough actions) :
    (m.run actions).AtWaitFor x := by
  obtain ⟨delay, sound, keypad, hrun⟩ := exists_run_eq_idled h hw
  rw [hrun]
  exact h.idled _ _ _ _

/-- What comes before a cycle of a wait is a wait, and leaves no key down. -/
theorem of_cycle_of_waitsThrough (hw : m.WaitsThrough actions)
    (hb : before ++ [.cycle] <+: actions) :
    m.WaitsThrough before ∧ (m.run before).keypad.NoneDown := by
  obtain ⟨after, rfl⟩ := hb
  obtain ⟨hbefore, -, hk, -⟩ := waitsThrough_append.1 (waitsThrough_append.1 hw).1
  exact ⟨hbefore, hk rfl⟩

/-- Of the notices of one action, only that of a first cycle says so. -/
theorem saysAwaiting_notices (h : m.AtWaitFor x) (ha : a.fitsWait = true)
    (hk : a = .cycle → m.keypad.NoneDown) :
    (m.notices a).filter (fun n => n.SaysAwaiting m.pc) =
      if a = .cycle ∧ m.awaitingKey = false then [.awaitingKey m.pc] else [] := by
  cases a with
  | cycle =>
    rw [notices_cycle_of_noneDown h (hk rfl),
      List.filter_cons_of_neg (by simpa using Notice.not_saysAwaiting_executing m.pc x)]
    cases m.awaitingKey with
    | true => rfl
    | false => exact List.filter_cons_of_pos (decide_eq_true rfl)
  | timerPeriod =>
    exact List.filter_cons_of_neg (by simpa using Notice.not_saysAwaiting_timers m.pc _ _)
  | setKeys _ | press _ | release _ => rfl
  | _ => cases ha

/-- **A wait is announced once**, by its first cycle, and not at all if the
machine waited before. -/
theorem saysAwaiting_runNotices (h : m.AtWaitFor x) (hw : m.WaitsThrough actions) :
    (m.runNotices actions).filter (fun n => n.SaysAwaiting m.pc) =
      if .cycle ∈ actions ∧ m.awaitingKey = false then [.awaitingKey m.pc] else [] := by
  induction actions generalizing m with
  | nil => rfl
  | cons a actions ih =>
    obtain ⟨ha, hk, hrest⟩ := hw
    obtain ⟨delay, sound, keypad, hact⟩ := exists_act_eq_idled h ha hk
    have hlater := ih (hact ▸ h.idled _ _ _ _) hrest
    have hpc : (m.act a).pc = m.pc := by rw [hact]; rfl
    have hflag : (m.act a).awaitingKey = (m.awaitingKey || decide (a = .cycle)) := by
      rw [hact]; rfl
    rw [hpc, hflag] at hlater
    rw [runNotices, List.filter_append, saysAwaiting_notices h ha hk, hlater]
    -- either this action begins the wait, or it is left to the others
    by_cases hcycle : a = .cycle
    · simp [hcycle]
    · simp [hcycle, eq_comm (a := Action.cycle)]

/-! ## What is done to the keys -/

/-- The machine with other keys down. -/
def withKeys (m : Machine) (keypad : Keypad) : Machine :=
  { m with keypad := keypad }

/-- **A wait does not mind what is done to the keys** between its cycles: it
ends and reports as it does if no key is ever touched. -/
theorem withKeys_run {k : Keypad} (h : m.AtWaitFor x) (hk : k.NoneDown)
    (hw : m.WaitsThrough actions) :
    (m.run actions).withKeys k = (m.withKeys k).run (withoutKeys actions) ∧
      m.runNotices actions = (m.withKeys k).runNotices (withoutKeys actions) := by
  induction actions generalizing m with
  | nil => exact ⟨rfl, rfl⟩
  | cons a actions ih =>
    obtain ⟨ha, hnone, hrest⟩ := hw
    obtain ⟨delay, sound, keypad, hact⟩ := exists_act_eq_idled h ha hnone
    obtain ⟨hrun, hnotices⟩ := ih (hact ▸ h.idled _ _ _ _) hrest
    rw [run_cons, hrun, runNotices, hnotices]
    cases hkey : a.isKey with
    | true =>
      -- whatever is done to the keys of the one, the other has its own
      have hunseen : (m.act a).withKeys k = m.withKeys k ∧ m.notices a = [] := by
        cases a with
        | setKeys _ | press _ | release _ => exact ⟨rfl, rfl⟩
        | _ => cases hkey
      rw [withoutKeys_cons_of_isKey hkey, hunseen.1, hunseen.2, List.nil_append]
      exact ⟨rfl, rfl⟩
    | false =>
      have hboth : (m.act a).withKeys k = (m.withKeys k).act a ∧
          m.notices a = (m.withKeys k).notices a := by
        cases a with
        | cycle =>
          have hother : (m.withKeys k).AtWaitFor x := h
          rw [act_cycle, act_cycle, cycle_of_noneDown h (hnone rfl), cycle_of_noneDown hother hk,
            notices_cycle_of_noneDown h (hnone rfl), notices_cycle_of_noneDown hother hk]
          exact ⟨rfl, rfl⟩
        | timerPeriod => exact ⟨rfl, rfl⟩
        | setKeys _ | press _ | release _ => cases hkey
        | _ => cases ha
      rw [withoutKeys_cons_of_not_isKey hkey, run_cons, runNotices, hboth.1, hboth.2]
      exact ⟨rfl, rfl⟩

/-- A key that was up and is pressed and let go leaves nothing behind. -/
theorem run_press_release {key : UInt8} (h : m.keypad.isPressed key = false) :
    m.run [.press key, .release key] = m := by
  have hrun : m.run [.press key, .release key] =
      m.withKeys ((m.keypad.press key).release key) := rfl
  rw [hrun, Keypad.release_press h]
  rfl

/-- **A wait for a key lasts until a key is down, and leaves nothing else
behind.** Take a machine without a fault at a key wait, with no key down,
and any actions through which it waits: cycles that find no key down, timer
periods, and whatever is done to the keys. Every cycle goes through and
leaves the wait flag up, nothing else changes but the timers and the keys,
and the wait is announced at most once. But for the keys that are down, it
all goes as if no key had been touched. If a key is down in the end, the
next cycle puts the lowest into the register, lowers the flag and goes on to
the next word, and nothing else changes. -/
theorem waits_until_key_down (m : Machine) (x : Digit) (actions : List Action)
    (hfault : m.fault = none) (hword : Instruction.decode? m.fetch = some (.awaitKey x))
    (hnone : m.keypad.NoneDown) (hwait : m.WaitsThrough actions) :
    (∀ before, before ++ [.cycle] <+: actions →
      ((m.run before).perform .cycle).1 = .ok .done ∧
        ((m.run before).act .cycle).awaitingKey = true) ∧
    (∃ delay sound keypad, m.run actions = { m with
      registers := { m.registers with delay := delay, sound := sound }
      keypad := keypad
      awaitingKey := m.awaitingKey || decide (.cycle ∈ actions) }) ∧
    ((m.runNotices actions).filter fun n => n.SaysAwaiting m.pc).length ≤ 1 ∧
    (m.run actions = { m.run (withoutKeys actions) with keypad := (m.run actions).keypad } ∧
      m.runNotices actions = m.runNotices (withoutKeys actions)) ∧
    (∀ (n : Machine) key, n.keypad.isPressed key = false →
      n.run [.press key, .release key] = n) ∧
    let n := m.run actions
    ¬n.keypad.NoneDown → ∃ key, n.keypad.Lowest key ∧
      n.perform .cycle = (.ok .done, { n with
        registers := { n.registers with
          v := n.registers.v.put x (Digit.toByte key)
          pc := n.pc + 2 }
        awaitingKey := false }) := by
  have h : m.AtWaitFor x := ⟨hfault, hword⟩
  refine ⟨fun before hb => ?_, exists_run_eq_idled h hwait, ?_, ?_,
    fun n key hkey => run_press_release hkey, ?_⟩
  · obtain ⟨hwaited, hk⟩ := of_cycle_of_waitsThrough hwait hb
    rw [act_cycle, perform, cycle_of_noneDown (h.run hwaited) hk]
    exact ⟨rfl, rfl⟩
  · rw [saysAwaiting_runNotices h hwait]
    split
    · exact Nat.le_refl 1
    · exact Nat.zero_le 1
  · obtain ⟨hrun, hnotices⟩ := withKeys_run h hnone hwait
    refine ⟨?_, hnotices⟩
    have hback : m.run actions =
        ((m.run actions).withKeys m.keypad).withKeys (m.run actions).keypad := rfl
    rw [hback, hrun]
    rfl
  · intro n hn
    obtain ⟨key, hkey⟩ := exists_lowest hn
    refine ⟨key, hkey, ?_⟩
    rw [perform, cycle_of_lowest (h.run hwait) hkey]
    rfl

/-- A machine that waits for a key to go into the fourth register, with five
periods on the delay timer. -/
def delayedWaiter : Machine :=
  (powerOn 0 Profile.standard).run
    [.load [0x60, 0x05, 0xF0, 0x15, 0xF3, 0x0A], .cycle, .cycle]

/-- Keys come and go between the cycles and leave no trace; of the two that
are down in the end the lower is taken. -/
theorem waits_until_key_down_delayedWaiter :
    let m := delayedWaiter
    let actions := [Action.press 0x4, .release 0x4, .cycle, .timerPeriod,
      .setKeys (Keypad.ofMask 0x0020), .release 0x5, .cycle, .press 0xC, .press 0x9]
    let n := m.run actions
    (m.fault = none ∧ Instruction.decode? m.fetch = some (.awaitKey 0x3) ∧
      m.keypad.NoneDown ∧ m.WaitsThrough actions) ∧
    n = { m.run [.cycle, .timerPeriod, .cycle] with keypad := n.keypad } ∧
    ((m.runNotices actions).filter fun n => n.SaysAwaiting m.pc).length ≤ 1 ∧
    n.registers.delay = 4 ∧ n.keypad.Lowest 0x9 ∧
    n.perform .cycle = (.ok .done, { n with
      registers := { n.registers with v := n.registers.v.put 0x3 0x9, pc := 0x206 }
      awaitingKey := false }) := by
  intro m actions n
  obtain ⟨hfault, hword, hnone, hwait, hdelay, hlowest, hpc, hdown⟩ :
      m.fault = none ∧ Instruction.decode? m.fetch = some (.awaitKey 0x3) ∧
        m.keypad.NoneDown ∧ m.WaitsThrough actions ∧ n.registers.delay = 4 ∧
        n.keypad.Lowest 0x9 ∧ n.pc + 2 = 0x206 ∧ ¬n.keypad.NoneDown := by
    decide +kernel
  obtain ⟨-, -, honce, ⟨huntouched, -⟩, -, htaken⟩ :=
    waits_until_key_down m 0x3 actions hfault hword hnone hwait
  obtain ⟨key, hkey, hcycle⟩ := htaken hdown
  -- there is but one lowest key
  have hnine : key = 0x9 := Option.some.inj
    ((Keypad.first?_eq_some_iff.2 hkey).symm.trans (Keypad.first?_eq_some_iff.2 hlowest))
  rw [hnine, hpc] at hcycle
  exact ⟨⟨hfault, hword, hnone, hwait⟩, huntouched, honce, hdelay, hlowest, hcycle⟩

end Machine

end Chip8
