/-!
# Sets and maps of characters given by ranges

Tables of characters are kept as lists of code points. A set is the sorted list of the points at
which membership changes; a map is a list of runs that are moved by one distance.
-/

namespace EntryFlow.Text

/-- Whether `n` lies in the set whose membership changes at each of `bounds`. -/
def inBounds (bounds : List Nat) (n : Nat) : Bool :=
  (bounds.takeWhile (· ≤ n)).length % 2 == 1

/-- First point, last point, step and shift of a run. -/
abbrev Run := Nat × Nat × Nat × Int

/-- The image of `n` under the run that covers it, if one does. -/
def Run.image? (n : Nat) : Run → Option Nat
  | (first, last, step, shift) =>
    if first ≤ n ∧ n ≤ last ∧ (n - first) % step = 0 then some (n + shift).toNat else none

/-- The image of `n` under the first run that covers it. -/
def imageIn? (runs : List Run) (n : Nat) : Option Nat :=
  runs.findSome? (Run.image? n)

end EntryFlow.Text
