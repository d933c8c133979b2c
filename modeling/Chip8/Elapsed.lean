/-!
# Elapsed time

A stretch of time in whole nanoseconds. Its text takes the largest unit of
which there is at least one, and writes the rest as an exact decimal
fraction without trailing zeros.
-/

namespace Chip8

/-- A stretch of time. -/
structure Elapsed where
  /-- Its length in nanoseconds. -/
  nanoseconds : Nat
deriving DecidableEq, Repr

namespace Elapsed

/-- The nanoseconds in a second. -/
def second : Nat := 1000000000

theorem second_pos : 0 < second := by decide

/-- Whole seconds and nanoseconds together. -/
def ofParts (seconds nanoseconds : Nat) : Elapsed :=
  ⟨seconds * second + nanoseconds⟩

/-- The decimal digits of a part of a unit with so many places, without the
zeros at the end. -/
def fraction (places part : Nat) : List Char :=
  (((Nat.toDigits 10 part).leftpad places '0').reverse.dropWhile (· = '0')).reverse

/-- A number of nanoseconds in a unit of `size` of them, which is a one with
`places` zeros. -/
def inUnit (size places : Nat) (symbol : String) (n : Nat) : String :=
  let whole := toString (n / size)
  match fraction places (n % size) with
  | [] => whole ++ symbol
  | digits => whole ++ "." ++ String.ofList digits ++ symbol

/-- The text in the largest unit that fits. -/
def text (e : Elapsed) : String :=
  let n := e.nanoseconds
  if second ≤ n then inUnit second 9 "s" n
  else if 1000000 ≤ n then inUnit 1000000 6 "ms" n
  else if 1000 ≤ n then inUnit 1000 3 "µs" n
  else inUnit 1 0 "ns" n

end Elapsed

end Chip8
