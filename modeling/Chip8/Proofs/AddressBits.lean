import Chip8.Console
import Chip8.Proofs.Similarity
import Mathlib.Data.List.Forall2
/-!
# Twelve bits of an address are all that shows

Similarity of machines carries from one instruction to cycles, timer
periods, the actions of a front end and the ticks of a clock, each with
replies that agree. So consoles with similar machines and the same clock
cannot be told apart by any history, but for the upper bits of the address
in a fault (`replies_alike_run_similar`). The program counter and the
index register may run past the end of memory, and past the largest word,
without a trace.
-/

namespace Chip8

namespace Machine

variable {m n : Machine}

namespace Similar

/-! ## Cycles and timer periods -/

/-- One step of similar machines. -/
theorem step (h : m.Similar n) : Alike Similar m.step n.step := by
  unfold Machine.step
  rw [h.fetch]
  cases Instruction.decode? n.fetch with
  | none => exact .error (.decode n.fetch h.pc)
  | some i => exact h.execute i

theorem cycle (h : m.Similar n) :
    Alike Eq m.cycle.1 n.cycle.1 ∧ m.cycle.2.Similar n.cycle.2 := by
  cases hm : m.fault with
  | some f =>
    obtain ⟨g, hn, hs⟩ := h.exists_fault hm
    rw [cycle_of_fault hm, cycle_of_fault hn]
    exact ⟨.error hs, h⟩
  | none =>
    have hn := h.fault_eq_none hm
    have hstep := h.step
    cases hsm : m.step with
    | ok m' =>
      cases hsn : n.step with
      | ok n' =>
        rw [hsm, hsn] at hstep
        rw [cycle_of_step_ok hm hsm, cycle_of_step_ok hn hsn]
        cases hstep with
        | ok hs => exact ⟨.ok rfl, hs⟩
      | error g =>
        rw [hsm, hsn] at hstep
        cases hstep
    | error f =>
      cases hsn : n.step with
      | ok n' =>
        rw [hsm, hsn] at hstep
        cases hstep
      | error g =>
        rw [hsm, hsn] at hstep
        rw [cycle_of_step_error hm hsm, cycle_of_step_error hn hsn]
        cases hstep with
        | error hs => exact ⟨.error hs, { h with fault := .some hs }⟩

theorem timerPeriod (h : m.Similar n) :
    m.timerPeriod.1 = n.timerPeriod.1 ∧ m.timerPeriod.2.Similar n.timerPeriod.2 := by
  constructor
  · simp only [Machine.timerPeriod, isSounding, h.sound]
  · refine { h with delay := ?_, sound := ?_ }
    · simp only [Machine.timerPeriod, h.delay]
    · simp only [Machine.timerPeriod, h.sound]

theorem timerPeriods (h : m.Similar n) (periods tones : Nat) :
    (m.timerPeriods periods tones).1 = (n.timerPeriods periods tones).1 ∧
      (m.timerPeriods periods tones).2.Similar (n.timerPeriods periods tones).2 := by
  induction periods generalizing m n tones with
  | zero => exact ⟨rfl, h⟩
  | succ k ih =>
    obtain ⟨htone, hs⟩ := h.timerPeriod
    simp only [Machine.timerPeriods, htone]
    exact ih hs _

/-! ## Actions -/

/-- The same program is loaded, or refused by both. -/
theorem load (h : m.Similar n) (program : List UInt8) :
    Alike Eq (m.perform (.load program)).1 (n.perform (.load program)).1 ∧
      (m.act (.load program)).Similar (n.act (.load program)) := by
  simp only [act, perform, loadProgram, h.memory]
  cases n.memory.load Registers.programStart program with
  | error f => exact ⟨.error (Fault.Similar.refl f), h⟩
  | ok loaded => exact ⟨.ok rfl, { h with memory := rfl }⟩

/-- **An action gives replies that agree**, and leaves similar machines
similar. -/
theorem perform (h : m.Similar n) (a : Action) :
    Alike Eq (m.perform a).1 (n.perform a).1 ∧ (m.act a).Similar (n.act a) := by
  cases a with
  | load program => exact h.load program
  | reset =>
    have hreset : m.reset = n.reset := by
      rw [reset_eq_powerOn, reset_eq_powerOn, h.seed, h.profile]
    refine ⟨.ok rfl, ?_⟩
    show m.reset.Similar n.reset
    rw [hreset]
    exact Similar.refl _
  | cycle => exact ⟨h.cycle.1.map _, h.cycle.2⟩
  | timerPeriod => exact ⟨.ok (congrArg Reply.tone h.timerPeriod.1), h.timerPeriod.2⟩
  | setKeys keys => exact ⟨.ok rfl, { h with keypad := rfl }⟩
  | press key => exact ⟨.ok rfl, { h with keypad := congrArg (Keypad.press · key) h.keypad }⟩
  | release key =>
    exact ⟨.ok rfl, { h with keypad := congrArg (Keypad.release · key) h.keypad }⟩
  | acknowledgeRedraw => exact ⟨.ok rfl, { h with redraw := rfl }⟩

end Similar

end Machine

namespace Clock

variable {m n : Machine}

/-! ## Ticks -/

/-- What a clock did to two machines agrees: the ticks or the faults, the
clock after it, and the machines. -/
def SameTicks (p q : Except Fault Tick × Clock × Machine) : Prop :=
  Alike Eq p.1 q.1 ∧ p.2.1 = q.2.1 ∧ p.2.2.Similar q.2.2

theorem sameTicks_tick (c : Clock) (h : m.Similar n) : SameTicks (c.tick m) (c.tick n) := by
  obtain ⟨hreply, hs⟩ := h.cycle
  rcases hm : m.cycle with ⟨r, m'⟩
  rcases hn : n.cycle with ⟨q, n'⟩
  rw [hm, hn] at hreply hs
  cases hreply with
  | error hf =>
    rw [tick_of_cycle_error hm, tick_of_cycle_error hn]
    exact ⟨.error hf, rfl, hs⟩
  | ok =>
    obtain ⟨htones, hs'⟩ := hs.timerPeriods c.periodsDue 0
    rw [tick_of_cycle_ok hm, tick_of_cycle_ok hn]
    exact ⟨.ok (congrArg (Tick.mk 1 c.periodsDue) htones), rfl, hs'⟩

theorem sameTicks_ticks (c : Clock) (h : m.Similar n) (cost : Nat) (total : Tick) (k : Nat) :
    SameTicks (c.ticks m cost total k) (c.ticks n cost total k) := by
  induction k generalizing c m n total with
  | zero => exact ⟨.ok rfl, rfl, h⟩
  | succ k ih =>
    obtain ⟨hreply, hclock, hs⟩ := sameTicks_tick (c.spend cost) h
    unfold ticks
    rcases hm : (c.spend cost).tick m with ⟨r, c', m'⟩
    rcases hn : (c.spend cost).tick n with ⟨q, d', n'⟩
    rw [hm, hn] at hreply hclock hs
    -- the clocks are one, so both runs have as many ticks to go
    dsimp only at hclock
    subst hclock
    cases hreply with
    | error hf => exact ⟨.error hf, rfl, hs⟩
    | ok ht =>
      subst ht
      exact ih c' hs _

end Clock

namespace Console

variable {s t : Console}

/-! ## Histories -/

/-- Two consoles have similar machines, driven by the same clock. -/
structure Similar (s t : Console) : Prop where
  machine : s.machine.Similar t.machine
  clock : s.clock = t.clock

/-- What a clock did to two machines, as replies and consoles. -/
theorem similar_ofTicks {p q : Except Fault Tick × Clock × Machine} (h : Clock.SameTicks p q) :
    Alike Eq (ofTicks p).1 (ofTicks q).1 ∧ (ofTicks p).2.Similar (ofTicks q).2 :=
  ⟨h.1.map _, h.2.2, h.2.1⟩

/-- **A command gives replies that agree**, and leaves similar consoles
similar. -/
theorem Similar.perform (h : s.Similar t) (c : Command) :
    Alike Eq (s.perform c).1 (t.perform c).1 ∧ (s.act c).Similar (t.act c) := by
  obtain ⟨m, clock⟩ := s
  obtain ⟨n, clock'⟩ := t
  obtain ⟨hm, hc⟩ := h
  dsimp only at hm hc
  subst hc
  cases c with
  | machine a => exact ⟨(hm.perform a).1.map _, (hm.perform a).2, rfl⟩
  | tick => exact similar_ofTicks (Clock.sameTicks_tick clock hm)
  | runSteps steps => exact similar_ofTicks (Clock.sameTicks_ticks clock hm 0 0 steps)
  | runFor time =>
    simp only [act, Console.perform, Clock.runFor, Clock.payTicks_eq]
    exact similar_ofTicks (Clock.sameTicks_ticks (clock.gain time) hm Elapsed.second 0 _)
  | setClock cpuRate timerRate => exact ⟨.ok rfl, hm, rfl⟩
  | useClock other => exact ⟨.ok rfl, hm, rfl⟩
  | resetClock => exact ⟨.ok rfl, hm, rfl⟩

/-- **The upper four bits of addresses do not show.** Consoles with similar
machines and the same clock reply alike to every list of commands, and are
similar after it. -/
theorem replies_alike_run_similar (s t : Console) (h : s.Similar t) (commands : List Command) :
    List.Forall₂ (Alike Eq) (s.replies commands) (t.replies commands) ∧
      (s.run commands).Similar (t.run commands) := by
  induction commands generalizing s t with
  | nil => exact ⟨.nil, h⟩
  | cons c commands ih =>
    obtain ⟨hreply, hs⟩ := h.perform c
    obtain ⟨hreplies, hrun⟩ := ih _ _ hs
    exact ⟨.cons hreply hreplies, hrun⟩

/-- A machine at the start of its program, and one at the same cell past the
end of memory: both execute the one instruction, and then fail at the word
behind it. -/
theorem replies_alike_past_memory :
    let m := (Machine.powerOn 0 Profile.standard).act (.load [0x60, 0x01])
    let s : Console := ⟨m, Clock.withRates 500 60⟩
    let t : Console := ⟨m.goTo 0x1200, Clock.withRates 500 60⟩
    let commands := [Command.tick, .runFor ⟨Elapsed.second⟩, .machine .cycle]
    s.Similar t ∧ s.machine.pc ≠ t.machine.pc ∧
      List.Forall₂ (Alike Eq) (s.replies commands) (t.replies commands) ∧
      (s.run commands).Similar (t.run commands) := by
  intro m s t commands
  have hpc : Address.ofWord m.pc = Address.ofWord (m.goTo 0x1200).pc := by decide
  have hm : m.Similar (m.goTo 0x1200) := { Machine.Similar.refl m with pc := hpc }
  have hs : s.Similar t := ⟨hm, rfl⟩
  exact ⟨hs, by decide, replies_alike_run_similar s t hs commands⟩

end Console

end Chip8
