import ObjectModel.Sorting.Insertion

/-!
# Merging

Merging two sorted lists of which the first comes before the second: an item of
the second is taken early only if it goes before the next of the first. The
result does not depend on the end from which the lists are read; which pairs are
compared does.
-/

namespace ObjectModel.Sorting

variable {α : Type}

/-- Merges from the front; `merged` lists the items taken so far, the last
first. -/
def mergeUp (before : Before α) (merged : List α) : List α → List α → Except Fault (List α)
  | [], ys => return merged.reverseAux ys
  | x :: xs, [] => return merged.reverseAux (x :: xs)
  | x :: xs, y :: ys => do
    if ← before y x then mergeUp before (y :: merged) (x :: xs) ys
    else mergeUp before (x :: merged) xs (y :: ys)
termination_by xs ys => xs.length + ys.length

/-- Merges from the end; both lists are given, and read, the last item first. -/
def mergeDown (before : Before α) (merged : List α) : List α → List α → Except Fault (List α)
  | [], ys => return ys.reverseAux merged
  | x :: xs, [] => return (x :: xs).reverseAux merged
  | x :: xs, y :: ys => do
    if ← before y x then mergeDown before (x :: merged) xs (y :: ys)
    else mergeDown before (y :: merged) (x :: xs) ys
termination_by xs ys => xs.length + ys.length

/-- Merges towards the longer of the two lists. -/
def merge (before : Before α) (xs ys : List α) : Except Fault (List α) :=
  if xs.length ≤ ys.length then mergeUp before [] xs ys
  else mergeDown before [] xs.reverse ys.reverse

/-- What is left of two lists that are merged from both ends, and what has been
taken. The lists ending in `Back` are read the last item first. -/
structure Ends (α : Type) where
  taken : List α
  takenBack : List α
  left : List α
  right : List α
  leftBack : List α
  rightBack : List α

/-- Takes one item from the front. -/
def Ends.takeFront (before : Before α) (e : Ends α) : Except Fault (Ends α) := do
  match e.left, e.right with
  | x :: xs, y :: ys =>
    if ← before y x then return { e with taken := y :: e.taken, right := ys }
    else return { e with taken := x :: e.taken, left := xs }
  | _, _ => return e

/-- Takes one item from the end. -/
def Ends.takeBack (before : Before α) (e : Ends α) : Except Fault (Ends α) := do
  match e.leftBack, e.rightBack with
  | x :: xs, y :: ys =>
    if ← before y x then return { e with takenBack := x :: e.takenBack, leftBack := xs }
    else return { e with takenBack := y :: e.takenBack, rightBack := ys }
  | _, _ => return e

def Ends.step (before : Before α) (e : Ends α) : Except Fault (Ends α) := do
  (← e.takeFront before).takeBack before

def Ends.steps (before : Before α) : Nat → Ends α → Except Fault (Ends α)
  | 0, e => return e
  | n + 1, e => do Ends.steps before n (← e.step before)

/-- Merges from both ends at once, as many steps as the shorter list has items;
of an odd number of items one stays between. An order that is not transitive can
make the ends meet in different places; then the lists stay as they are. -/
def mergeEnds (before : Before α) (xs ys : List α) : Except Fault (List α) := do
  let e ← Ends.steps before xs.length ⟨[], [], xs, ys, xs.reverse, ys.reverse⟩
  let between :=
    e.left.take (e.left.length + e.leftBack.length - xs.length) ++
      e.right.take (e.right.length + e.rightBack.length - ys.length)
  let merged := e.taken.reverseAux (between ++ e.takenBack)
  return if merged.length = xs.length + ys.length then merged else xs ++ ys

end ObjectModel.Sorting
