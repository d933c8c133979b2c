import Chip8.Machine.Cycle
/-!
# Actions and histories

All that a front end can ask of a machine. Every action has a reply, or
fails with a fault, and leaves a machine behind. A history is a list of
actions.
-/

namespace Chip8

namespace Machine

/-- What a front end can ask of a machine. -/
inductive Action
  /-- Copy a program into memory. -/
  | load (program : List UInt8)
  /-- Go back to power-on. -/
  | reset
  /-- Execute one instruction. -/
  | cycle
  /-- Count the timers down. -/
  | timerPeriod
  /-- Replace the state of all keys. -/
  | setKeys (keys : Keypad)
  /-- Put a key down. -/
  | press (key : UInt8)
  /-- Let a key up. -/
  | release (key : UInt8)
  /-- Note that the screen has been taken over. -/
  | acknowledgeRedraw
deriving DecidableEq

/-- What an action gives back. -/
inductive Reply
  /-- Nothing but that it is done. -/
  | done
  /-- Whether a tone is to be sounded for the timer period. -/
  | tone (on : Bool)
deriving DecidableEq, Repr

/-- The reply to an action, or the fault it fails with, and the machine
after it. A program that does not fit is refused and nothing changes. -/
def perform (m : Machine) : Action → Except Fault Reply × Machine
  | .load program =>
    match m.loadProgram program with
    | .ok (_, m) => (.ok .done, m)
    | .error f => (.error f, m)
  | .reset => (.ok .done, m.reset)
  | .cycle =>
    let (result, m) := m.cycle
    (result.map fun () => .done, m)
  | .timerPeriod =>
    let (tone, m) := m.timerPeriod
    (.ok (.tone tone), m)
  | .setKeys keys => (.ok .done, { m with keypad := keys })
  | .press key => (.ok .done, { m with keypad := m.keypad.press key })
  | .release key => (.ok .done, { m with keypad := m.keypad.release key })
  | .acknowledgeRedraw => (.ok .done, m.acknowledgeRedraw)

/-- The machine after an action. -/
def act (m : Machine) (a : Action) : Machine :=
  (m.perform a).2

/-- The machine after a list of actions. -/
def run (m : Machine) (actions : List Action) : Machine :=
  actions.foldl act m

@[simp] theorem run_nil (m : Machine) : m.run [] = m := rfl

@[simp] theorem run_cons (m : Machine) (a : Action) (actions : List Action) :
    m.run (a :: actions) = (m.act a).run actions := rfl

/-- A reset leads back to power-on. -/
theorem act_reset (m : Machine) : m.act .reset = powerOn m.seed m.profile :=
  m.reset_eq_powerOn

/-- A history may be cut anywhere. -/
theorem run_append (m : Machine) (before after : List Action) :
    m.run (before ++ after) = (m.run before).run after :=
  List.foldl_append

/-- The replies to a list of actions, one after the other. -/
def replies (m : Machine) : List Action → List (Except Fault Reply)
  | [] => []
  | a :: actions => (m.perform a).1 :: (m.act a).replies actions

/-- The notices of an action. -/
def notices (m : Machine) : Action → List Notice
  | .load program =>
    match m.loadProgram program with
    | .ok (stop, _) => [.loaded program.length Registers.programStart stop]
    | .error _ => []
  | .reset => [.reset m.seed]
  | .cycle => m.cycleNotices
  | .timerPeriod => m.timerNotices 1
  | .setKeys _ | .press _ | .release _ | .acknowledgeRedraw => []

/-- The notices of a list of actions. -/
def runNotices (m : Machine) : List Action → List Notice
  | [] => []
  | a :: actions => m.notices a ++ (m.act a).runNotices actions

end Machine

end Chip8
