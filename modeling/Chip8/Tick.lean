import Chip8.Text
/-!
# Ticks

What a stretch of clock time did to the machine. The ticks of stretches
that follow one another are added part by part.
-/

namespace Chip8

/-- What a stretch of clock time did. -/
@[ext] structure Tick where
  /-- The instructions executed. -/
  cycles : Nat
  /-- The timer periods that ended. -/
  timerPeriods : Nat
  /-- The timer periods during which the sound timer was running. -/
  tones : Nat
deriving DecidableEq, Repr

namespace Tick

/-- Nothing happened. -/
def zero : Tick := ⟨0, 0, 0⟩

/-- What two stretches did together. -/
def add (a b : Tick) : Tick :=
  ⟨a.cycles + b.cycles, a.timerPeriods + b.timerPeriods, a.tones + b.tones⟩

instance : Add Tick := ⟨add⟩

instance : Zero Tick := ⟨zero⟩

/-- The tick as a record. -/
def record (t : Tick) : String :=
  Record.text "Tick"
    [("cycles", toString t.cycles), ("timer_ticks", toString t.timerPeriods),
     ("tones", toString t.tones)]

@[simp] theorem cycles_add (a b : Tick) : (a + b).cycles = a.cycles + b.cycles := rfl

@[simp] theorem timerPeriods_add (a b : Tick) :
    (a + b).timerPeriods = a.timerPeriods + b.timerPeriods := rfl

@[simp] theorem tones_add (a b : Tick) : (a + b).tones = a.tones + b.tones := rfl

@[simp] theorem cycles_zero : (0 : Tick).cycles = 0 := rfl

@[simp] theorem timerPeriods_zero : (0 : Tick).timerPeriods = 0 := rfl

@[simp] theorem tones_zero : (0 : Tick).tones = 0 := rfl

/-- Stretches may be grouped in any way. -/
theorem add_assoc (a b c : Tick) : a + b + c = a + (b + c) := by
  ext <;> simp [Nat.add_assoc]

@[simp] theorem zero_add (a : Tick) : 0 + a = a := by
  ext <;> simp

@[simp] theorem add_zero (a : Tick) : a + 0 = a := by
  ext <;> simp

end Tick

end Chip8
