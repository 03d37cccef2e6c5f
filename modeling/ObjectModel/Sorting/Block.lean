import ObjectModel.Sorting.Merge

/-!
# Blocks

Short stretches are sorted in two halves: the first items of each half by a
fixed scheme of comparisons, the others by insertion. Then the halves are merged
from both ends.
-/

namespace ObjectModel.Sorting

variable {α : Type}

/-- The length up to which a stretch is sorted as one block. -/
def blockLimit : Nat := 32

/-- Sorts four items with five comparisons: two pairs, the least, the greatest,
and the two that are then left. -/
def sortFour (before : Before α) (w x y z : α) : Except Fault (List α) := do
  let (a, b) := if ← before x w then (x, w) else (w, x)
  let (c, d) := if ← before z y then (z, y) else (y, z)
  let leastLate ← before c a
  let greatestEarly ← before d b
  let least := if leastLate then c else a
  let greatest := if greatestEarly then b else d
  let earlier := if leastLate then a else if greatestEarly then c else b
  let later := if greatestEarly then d else if leastLate then b else c
  if ← before later earlier then return [least, later, earlier, greatest]
  else return [least, earlier, later, greatest]

/-- Sorts four items, or twice four. -/
def presort (before : Before α) : List α → Except Fault (List α)
  | [a, b, c, d] => sortFour before a b c d
  | [a, b, c, d, e, f, g, h] => do
    let first ← sortFour before a b c d
    let second ← sortFour before e f g h
    mergeEnds before first second
  | xs => return xs

/-- How many items of either half of a block are presorted. -/
def presorted (byEights : Bool) (size : Nat) : Nat :=
  if byEights ∧ 16 ≤ size then 8 else if 8 ≤ size then 4 else 1

def sortBlock (before : Before α) (byEights : Bool) (xs : List α) : Except Fault (List α) := do
  if xs.length < 2 then return xs
  let (first, second) := xs.splitAt (xs.length / 2)
  let width := presorted byEights xs.length
  let start ← presort before (first.take width)
  let start' ← presort before (second.take width)
  let first ← insertInto before start (first.drop width)
  let second ← insertInto before start' (second.drop width)
  mergeEnds before first second

end ObjectModel.Sorting
