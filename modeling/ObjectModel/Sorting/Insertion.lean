import ObjectModel.Fault

/-!
# Insertion

Sorting by moving one item after the other to its place. After the first
failure nothing moves any more, so the outcome is always a rearrangement of the
input, together with that failure.
-/

namespace ObjectModel.Sorting

variable {α : Type}

/-- Decides whether a later item goes before an earlier one. -/
abbrev Before (α : Type) := α → α → Except Fault Bool

/-- The later of two items goes before the earlier one. It is asked first
whether the later is less, then whether the earlier is; `reverse` turns the
order around, so that equivalent items keep their places. -/
def goesBefore (lt : α → α → Except Fault Bool) (reverse : Bool) : Before α := fun later earlier => do
  if ← lt later earlier then return !reverse
  else if ← lt earlier later then return reverse
  else return false

/-- Moves an item past the items that it goes before; `sorted` lists the
nearest first. -/
def insertItem (before : Before α) (x : α) : List α → List α × Option Fault
  | [] => ([x], none)
  | p :: ps =>
    match before x p with
    | .ok true =>
      let (rest, failure) := insertItem before x ps
      (p :: rest, failure)
    | .ok false => (x :: p :: ps, none)
    | .error f => (x :: p :: ps, some f)

/-- Inserts the remaining items in order; `sorted` lists the last first. -/
def insertAll (before : Before α) (sorted : List α) : List α → List α × Option Fault
  | [] => (sorted.reverse, none)
  | x :: xs =>
    match insertItem before x sorted with
    | (sorted, none) => insertAll before sorted xs
    | (sorted, some f) => (sorted.reverse ++ xs, some f)

/-- Inserts further items into a sorted list. -/
def insertInto (before : Before α) (sorted rest : List α) : Except Fault (List α) :=
  match insertAll before sorted.reverse rest with
  | (sorted, none) => .ok sorted
  | (_, some f) => .error f

end ObjectModel.Sorting
