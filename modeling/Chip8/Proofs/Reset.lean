import Chip8.Proofs.Footprint
import Chip8.Proofs.Schedule
/-!
# A reset erases all history

The seed and the profile are all that a machine keeps from the moment it is
switched on, and they are all that a reset reads (`reset_eq_powerOn`). So
wherever a history has led, a reset leads back to power-on (`reset_run`),
and what follows is the history of a machine just switched on, reply by
reply and notice by notice (`history_after_reset`).
-/

namespace Chip8

namespace Machine

/-- A machine is switched on by its first reset. -/
theorem reset_blank (seed : UInt64) (profile : Profile) :
    (blank seed profile).reset = powerOn seed profile :=
  (blank seed profile).reset_eq_powerOn

/-- **A reset leads back to power-on**, whatever was done before it. -/
theorem reset_run (seed : UInt64) (profile : Profile) (actions : List Action) :
    ((powerOn seed profile).run actions).reset = powerOn seed profile := by
  obtain ⟨hseed, hprofile⟩ := (powerOn seed profile).seed_profile_run actions
  rw [reset_eq_powerOn, hseed, hprofile]
  rfl

/-- A call that has returned leaves its address in a slot of the stack; the
reset takes it out. -/
example :
    let m := (powerOn 0 Profile.standard).run [.load [0x22, 0x02, 0x00, 0xEE], .cycle, .cycle]
    m.stack.depth = 0 ∧ m.stack ≠ CallStack.empty ∧ m.reset.stack = CallStack.empty := by
  decide +kernel

end Machine

namespace Console

variable {s : Console}

/-! ## Histories in two parts -/

theorem run_append (s : Console) (before after : List Command) :
    s.run (before ++ after) = (s.run before).run after :=
  List.foldl_append

theorem replies_append (s : Console) (before after : List Command) :
    s.replies (before ++ after) = s.replies before ++ (s.run before).replies after := by
  induction before generalizing s with
  | nil => rfl
  | cons c before ih => rw [List.cons_append, replies, ih, replies, run_cons, List.cons_append]

theorem runNotices_append (s : Console) (before after : List Command) :
    s.runNotices (before ++ after) = s.runNotices before ++ (s.run before).runNotices after := by
  induction before generalizing s with
  | nil => rfl
  | cons c before ih =>
    rw [List.cons_append, runNotices, ih, runNotices, run_cons, List.append_assoc]

/-- A reset of the machine leaves the clock alone. -/
theorem act_reset (s : Console) : s.act (.machine .reset) = ⟨s.machine.reset, s.clock⟩ := rfl

/-! ## What follows a reset -/

/-- **A reset erases all history.** Switch a machine on with any seed and
profile, under any clock, and give it any commands. A reset then leaves the
machine that the switch left, itself a blank one after a reset, equal in
every part: memory with the font in it, the slots of the stack and the state
of the generator are those of power-on. And whatever commands come after,
they are replied to, reported and carried out as on a machine just switched
on, under the clock as it was before the reset. -/
theorem history_after_reset (seed : UInt64) (profile : Profile) (clock : Clock)
    (commands : List Command) :
    let on : Console := ⟨Machine.powerOn seed profile, clock⟩
    let fresh : Console := ⟨Machine.powerOn seed profile, (on.run commands).clock⟩
    (on.run commands).machine.reset = Machine.powerOn seed profile ∧
      (Machine.blank seed profile).reset = Machine.powerOn seed profile ∧
      ∀ later,
        on.run (commands ++ .machine .reset :: later) = fresh.run later ∧
        on.replies (commands ++ .machine .reset :: later) =
          on.replies commands ++ .ok (.machine .done) :: fresh.replies later ∧
        on.runNotices (commands ++ .machine .reset :: later) =
          on.runNotices commands ++ .reset seed :: fresh.runNotices later := by
  intro on fresh
  have hreset : (on.run commands).machine.reset = Machine.powerOn seed profile := by
    rw [machine_run]
    exact Machine.reset_run seed profile (on.runActions commands)
  have hfresh : (on.run commands).act (.machine .reset) = fresh := by
    rw [act_reset, hreset]
  have hseed : (on.run commands).machine.seed = seed := by
    rw [machine_run]
    exact (on.machine.seed_profile_run (on.runActions commands)).1
  refine ⟨hreset, Machine.reset_blank seed profile, fun later => ⟨?_, ?_, ?_⟩⟩
  · rw [run_append, run_cons, hfresh]
  · rw [replies_append, replies, hfresh]
    rfl
  · rw [runNotices_append, runNotices, hfresh, ← hseed]
    rfl

end Console

end Chip8
