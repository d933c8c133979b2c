import Chip8.Keypad
/-!
# Key events

All that can happen to a keypad: one key is put down or let up, the keys are
replaced all at once, or all of them are let up. An event settles whether a
key that it touches is down, and says nothing of the others; a key that is
named by a byte is named by its lower digit alone.
-/

namespace Chip8

namespace Keypad

/-- What can happen to a keypad. -/
inductive Event
  /-- A key is put down. -/
  | press (key : UInt8)
  /-- A key is let up. -/
  | release (key : UInt8)
  /-- The state of all keys is replaced. -/
  | setKeys (keys : Keypad)
  /-- Every key is let up. -/
  | clear
deriving DecidableEq

namespace Event

/-- Whether an event leaves a key down, if it touches the key. -/
def effect? (key : Digit) : Event → Option Bool
  | press named => if Digit.ofByte named = key then some true else none
  | release named => if Digit.ofByte named = key then some false else none
  | setKeys keys => some (keys.down.get key)
  | clear => some false

/-- The key that a press or a release names. -/
def key? : Event → Option Digit
  | press named | release named => some (Digit.ofByte named)
  | setKeys _ | clear => none

/-- A press or a release touches no key but the one that it names. -/
theorem effect?_of_key?_ne {e : Event} {key other : Digit} (h : e.key? = some other)
    (hne : other ≠ key) : e.effect? key = none := by
  cases e with
  | press named | release named =>
    obtain rfl := Option.some.inj h
    exact if_neg hne
  | setKeys keys => cases h
  | clear => cases h

end Event

/-- The keypad after an event. -/
def handle (k : Keypad) : Event → Keypad
  | .press key => k.press key
  | .release key => k.release key
  | .setKeys keys => keys
  | .clear => k.clear

/-- The keypad after a list of events. -/
def run (k : Keypad) (events : List Event) : Keypad :=
  events.foldl handle k

@[simp] theorem run_cons (k : Keypad) (e : Event) (events : List Event) :
    k.run (e :: events) = (k.handle e).run events := rfl

theorem run_append (k : Keypad) (before after : List Event) :
    k.run (before ++ after) = (k.run before).run after :=
  List.foldl_append

/-- **An event settles the keys that it touches** and leaves the others as
they are. -/
theorem get_handle (k : Keypad) (e : Event) (key : Digit) :
    (k.handle e).down.get key = (e.effect? key).getD (k.down.get key) := by
  cases e with
  | press named =>
    show (k.down.put (Digit.ofByte named) true).get key = _
    rw [Buffer.get_put, Event.effect?]
    split <;> rfl
  | release named =>
    show (k.down.put (Digit.ofByte named) false).get key = _
    rw [Buffer.get_put, Event.effect?]
    split <;> rfl
  | setKeys keys => rfl
  | clear => exact Buffer.get_blank key

end Keypad

end Chip8
