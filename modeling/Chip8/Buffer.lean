/-!
# Buffers

A buffer holds a fixed number of elements and starts out blank: every
element has its type's default, which is zero for a number. A position is
given as an integer of any width; a position or a range that leaves the
buffer is refused and nothing changes.
-/

namespace Chip8

/-- A fixed number of elements. -/
abbrev Buffer (α : Type) (n : Nat) := Vector α n

namespace Buffer

variable {α : Type} {n : Nat}

/-- The buffer in which every element is the default. -/
def blank [Inhabited α] : Buffer α n :=
  Vector.replicate n default

/-- Every element is the default. -/
def isBlank [Inhabited α] [BEq α] (b : Buffer α n) : Bool :=
  b.all (· == default)

/-- The buffer with the element at one place replaced. -/
def put (b : Buffer α n) (i : Fin n) (a : α) : Buffer α n :=
  b.set i.val a i.isLt

/-- The element at a position, if the position lies inside. -/
def at? (b : Buffer α n) (i : Int) : Option α :=
  if 0 ≤ i then b[i.toNat]? else none

/-- The buffer with one element replaced, if the position lies inside. -/
def put? (b : Buffer α n) (i : Int) (a : α) : Option (Buffer α n) :=
  if h : 0 ≤ i ∧ i.toNat < n then some (b.set i.toNat a h.2) else none

/-- The elements from `start` up to, not including, `stop`. -/
def slice? (b : Buffer α n) (start stop : Nat) : Option (List α) :=
  if start ≤ stop ∧ stop ≤ n then some ((b.toList.take stop).drop start) else none

/-- The buffer with the elements from `start` up to `stop` replaced. -/
def fillSlice? (b : Buffer α n) (start stop : Nat) (a : α) : Option (Buffer α n) :=
  if start ≤ stop ∧ stop ≤ n then
    some (Vector.ofFn fun i => if start ≤ i.val ∧ i.val < stop then a else b.get i)
  else none

/-- The buffer in which every element is the given one. -/
def fill (_ : Buffer α n) (a : α) : Buffer α n :=
  Vector.replicate n a

/-! ## Laws -/

theorem get_eq_getElem (b : Buffer α n) (i : Fin n) : b.get i = b[i.val] := rfl

@[simp] theorem get_blank [Inhabited α] (i : Fin n) : (blank : Buffer α n).get i = default := by
  simp [blank, get_eq_getElem]

/-- A replaced element shows at its own place and nowhere else. -/
theorem get_put (b : Buffer α n) (i j : Fin n) (a : α) :
    (b.put i a).get j = if i = j then a else b.get j := by
  simp only [put, get_eq_getElem, Vector.getElem_set, Fin.ext_iff]

/-- Buffers with the same elements are the same. -/
theorem ext_get {b c : Buffer α n} (h : ∀ i, b.get i = c.get i) : b = c := by
  apply Vector.ext
  intro i hi
  simpa only [get_eq_getElem] using h ⟨i, hi⟩

/-- A position is inside exactly when it is not negative and below the size. -/
theorem isSome_at?_iff (b : Buffer α n) (i : Int) :
    (b.at? i).isSome ↔ 0 ≤ i ∧ i.toNat < n := by
  unfold at?
  split
  · simp_all
  · constructor
    · simp
    · omega

end Buffer

end Chip8
