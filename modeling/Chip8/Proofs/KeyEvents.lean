import Mathlib.Logic.Relation
import Chip8.Keypad.Event
/-!
# The last event decides each key

After any events a key is as the latest one that touches it left it, and as
it was in the beginning if none does (`get_run`). What is down after a
history that began with every key up, and which key is the lowest of them,
is therefore said by the events alone (`decided_by_last_events`); and two
presses or releases of different keys may come in either order, since no key
is touched by both (`handle_comm`).
-/

namespace Chip8

namespace Keypad

variable {events others : List Event} {key : Digit}

/-! ## The latest event -/

/-- The latest of the events that touch a key puts it down. -/
def LastPutsDown (events : List Event) (key : Digit) : Prop :=
  ∃ before e after, events = before ++ e :: after ∧ e.effect? key = some true ∧
    ∀ later ∈ after, later.effect? key = none

theorem findSome?_reverse_eq_some_iff :
    events.reverse.findSome? (Event.effect? key) = some true ↔ LastPutsDown events key := by
  rw [List.findSome?_eq_some_iff]
  constructor
  · rintro ⟨after, e, before, hevents, he, hafter⟩
    refine ⟨before.reverse, e, after.reverse, ?_, he, fun later hlater => ?_⟩
    · rw [← List.reverse_reverse events, hevents, List.reverse_append, List.reverse_cons,
        List.append_assoc, List.singleton_append]
    · exact hafter later (List.mem_reverse.1 hlater)
  · rintro ⟨before, e, after, rfl, he, hafter⟩
    refine ⟨after.reverse, e, before.reverse, ?_, he, fun later hlater => ?_⟩
    · rw [List.reverse_append, List.reverse_cons, List.append_assoc, List.singleton_append]
    · exact hafter later (List.mem_reverse.1 hlater)

/-- **A key is as the latest event that touches it left it**, and as it was
before if none does. -/
theorem get_run (k : Keypad) (events : List Event) (key : Digit) :
    (k.run events).down.get key =
      (events.reverse.findSome? (Event.effect? key)).getD (k.down.get key) := by
  induction events generalizing k with
  | nil => rfl
  | cons e events ih =>
    -- the first event is the last that is asked
    rw [run_cons, ih, get_handle, List.reverse_cons, List.findSome?_append, Option.getD_or,
      List.findSome?_singleton]

/-- From a keypad with every key up, the events alone decide. -/
theorem get_run_released_iff :
    (released.run events).down.get key = true ↔ LastPutsDown events key := by
  have hup : released.down.get key = false := Buffer.get_blank key
  rw [get_run, hup, ← findSome?_reverse_eq_some_iff]
  cases events.reverse.findSome? (Event.effect? key) with
  | none => simp
  | some down => simp

/-! ## The order of events -/

/-- **Events that touch no key in common may come in either order.** -/
theorem handle_comm {a b : Event} (h : ∀ key, a.effect? key = none ∨ b.effect? key = none)
    (k : Keypad) : (k.handle a).handle b = (k.handle b).handle a := by
  have hdown : ((k.handle a).handle b).down = ((k.handle b).handle a).down := by
    apply Buffer.ext_get
    intro key
    rw [get_handle, get_handle, get_handle, get_handle]
    rcases h key with hnone | hnone
    · rw [hnone, Option.getD_none, Option.getD_none]
    · rw [hnone, Option.getD_none, Option.getD_none]
  exact congrArg Keypad.mk hdown

/-- Two histories that differ in the order of two neighbours, each of them
the press or the release of a key of its own. -/
inductive Exchanged : List Event → List Event → Prop
  /-- The two neighbours change places. -/
  | swap (before after : List Event) {a b : Event} {key other : Digit}
      (ha : a.key? = some key) (hb : b.key? = some other) (hne : key ≠ other) :
      Exchanged (before ++ a :: b :: after) (before ++ b :: a :: after)

theorem run_of_exchanged (h : Exchanged events others) (k : Keypad) :
    k.run others = k.run events := by
  cases h with
  | @swap before after a b key other ha hb hne =>
    -- no key is named by both, and neither touches a key that it does not name
    have hapart : ∀ touched, a.effect? touched = none ∨ b.effect? touched = none := by
      intro touched
      by_cases hkey : key = touched
      · exact .inr (Event.effect?_of_key?_ne hb fun h => hne (hkey.trans h.symm))
      · exact .inl (Event.effect?_of_key?_ne ha hkey)
    rw [run_append, run_append, run_cons, run_cons, run_cons, run_cons, handle_comm hapart]

/-- Any number of exchanges, one after the other, make no difference. -/
theorem run_of_reordered (h : Relation.ReflTransGen Exchanged events others) (k : Keypad) :
    k.run others = k.run events := by
  induction h with
  | refl => rfl
  | tail _ hlast ih => exact (run_of_exchanged hlast k).trans ih

/-! ## What the events decide -/

/-- **The last event decides each key.** After any events on a keypad with
every key up, a byte finds its key down exactly if the latest event that
touches the key of its lower digit puts that key down. The lowest key down
is the lowest of which this holds, and there is none exactly if it holds of
none. And whatever neighbouring presses and releases of different keys
change places, one pair after the other, the keypad comes out the same,
whichever keys were down in the beginning. -/
theorem decided_by_last_events (events : List Event) :
    (∀ key : UInt8, (released.run events).isPressed key = true ↔
        LastPutsDown events (Digit.ofByte key)) ∧
      (∀ key, (released.run events).first? = some key ↔
        LastPutsDown events key ∧ ∀ lower < key, ¬LastPutsDown events lower) ∧
      ((released.run events).first? = none ↔ ∀ key, ¬LastPutsDown events key) ∧
      ∀ others, Relation.ReflTransGen Exchanged events others →
        ∀ k : Keypad, k.run others = k.run events := by
  have hup : ∀ key, (released.run events).down.get key = false ↔ ¬LastPutsDown events key := by
    intro key
    rw [← get_run_released_iff, Bool.not_eq_true]
  refine ⟨fun key => get_run_released_iff, fun key => ?_, ?_,
    fun others h => run_of_reordered h⟩
  · rw [first?_eq_some_iff, Lowest, get_run_released_iff]
    simp only [hup]
  · rw [first?_eq_none_iff, NoneDown]
    simp only [hup]

/-- Two keys set down at once, of which one is let up after a third was put
down. -/
def thirdKeyDown : List Event :=
  [.setKeys (ofMask 0x8002), .press 0x27, .release 0xF1]

/-- The lowest key down is the third, in either order of the two events that
name a key, and the byte `0xFF` finds the last key down. -/
theorem decided_by_last_events_thirdKeyDown :
    let others := [Event.setKeys (ofMask 0x8002), .release 0xF1, .press 0x27]
    Relation.ReflTransGen Exchanged thirdKeyDown others ∧
      released.run others = released.run thirdKeyDown ∧
      (released.run others).first? = some 7 ∧ (released.run others).isPressed 0xFF = true ∧
      LastPutsDown thirdKeyDown 15 ∧ ¬LastPutsDown thirdKeyDown 1 := by
  intro others
  have hpress : (Event.press 0x27).key? = some 7 := rfl
  have hrelease : (Event.release 0xF1).key? = some 1 := rfl
  have hswap : Exchanged thirdKeyDown others :=
    .swap [.setKeys (ofMask 0x8002)] [] hpress hrelease (by decide)
  obtain ⟨hpressed, hfirst, -, hsame⟩ := decided_by_last_events thirdKeyDown
  have hrun : released.run others = released.run thirdKeyDown :=
    hsame others (.single hswap) released
  have hseven : (released.run thirdKeyDown).first? = some 7 := by decide +kernel
  have hlast : (released.run thirdKeyDown).isPressed 0xFF = true := by decide +kernel
  refine ⟨.single hswap, hrun, hrun ▸ hseven, hrun ▸ hlast, (hpressed 0xFF).1 hlast, ?_⟩
  exact ((hfirst 7).1 hseven).2 1 (by decide)

end Keypad

end Chip8
