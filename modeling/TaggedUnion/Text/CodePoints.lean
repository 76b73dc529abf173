/-! # Sets of code points

    A property of characters is kept as a list of runs:

    * **Run**: the code points `first`, `first + step`, … up to `last`; a step of two
      covers the alphabets in which capital and small letters alternate.
    * **Membership** in a list of runs is membership in one of them.
-/

namespace TaggedUnion.Text

/-- The code points `first`, `first + step`, … that are at most `last`. -/
structure Run where
  /-- The least code point of the run. -/
  first : Nat
  /-- The bound that no code point of the run passes. -/
  last : Nat
  /-- The distance between neighbours. -/
  step : Nat := 1
deriving Repr, DecidableEq

/-- A code point is in a run if it lies between the ends, a multiple of the step above
    the first. -/
def Run.contains (r : Run) (code : Nat) : Bool :=
  r.first ≤ code && code ≤ r.last && (code - r.first) % r.step == 0

/-- The set of characters whose code point is in one of the runs. -/
def inRuns (runs : List Run) (c : Char) : Bool :=
  runs.any fun r => r.contains c.toNat

end TaggedUnion.Text
