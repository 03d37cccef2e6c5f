import ObjectModel.Sorting.Block

/-!
# Runs

A long list is cut into runs. A stretch that is in order already, or in strictly
descending order, is a run as it stands if it is long enough; other runs have a
fixed length. Neighbouring runs are joined in the order of a balanced tree over
their places. Joining two runs of which neither is sorted puts off the work.
-/

namespace ObjectModel.Sorting

variable {α : Type}

structure Run (α : Type) where
  items : List α
  isSorted : Bool

/-- Extends a run while each item stands to the one before it as the first two
do; `seen` lists the items of the run, the last first. -/
def growRun (before : Before α) (descending : Bool) (last : α) (seen : List α) :
    List α → Except Fault (List α × List α)
  | [] => return (seen, [])
  | x :: xs => do
    if (← before x last) == descending then growRun before descending x (x :: seen) xs
    else return (seen, x :: xs)

/-- The longest stretch in order, or in strictly descending order, that a list
starts with, put in order, and the rest of the list. -/
def naturalRun (before : Before α) : List α → Except Fault (List α × List α)
  | x :: y :: rest => do
    let descending ← before y x
    let (seen, rest) ← growRun before descending y [y, x] rest
    return (if descending then seen else seen.reverse, rest)
  | xs => return (xs, [])

/-- A number near the square root. -/
def nearRoot (n : Nat) : Nat :=
  let shift := (1 + n.log2) / 2
  ((1 <<< shift) + (n >>> shift)) / 2

/-- The length from which on a stretch in order is kept as a run. -/
def shortestRun (size : Nat) : Nat :=
  if size ≤ 4096 then min (size - size / 2) 64 else nearRoot size

/-- How a list is cut into runs and how unsorted runs are sorted. -/
structure Plan (α : Type) where
  before : Before α
  /-- blocks start from eight sorted items, not from four -/
  byEights : Bool
  /-- runs are sorted at once -/
  isEager : Bool
  /-- sorts runs that were put off -/
  sortRun : List α → Except Fault (List α)

namespace Plan

/-- The first run of a list of which `remaining` items are left, and the rest. -/
def nextRun (plan : Plan α) (shortest remaining : Nat) (xs : List α) :
    Except Fault (Run α × List α) := do
  if shortest ≤ remaining then
    let (run, rest) ← naturalRun plan.before xs
    if shortest ≤ run.length then return (⟨run, true⟩, rest)
  if plan.isEager then
    return (⟨← sortBlock plan.before plan.byEights (xs.take blockLimit), true⟩, xs.drop blockLimit)
  else return (⟨xs.take shortest, false⟩, xs.drop shortest)

def sortedItems (plan : Plan α) (run : Run α) : Except Fault (List α) :=
  if run.isSorted then return run.items else plan.sortRun run.items

def join (plan : Plan α) (left right : Run α) : Except Fault (Run α) := do
  if left.isSorted || right.isSorted then
    let xs ← plan.sortedItems left
    let ys ← plan.sortedItems right
    return ⟨← merge plan.before xs ys, true⟩
  else return ⟨left.items ++ right.items, false⟩

/-- The depth, in a balanced tree over `size` places, of the node that joins the
places from `first` up to `middle` with those up to `last`. -/
def joinDepth (size first middle last : Nat) : Nat :=
  let scale := (0x4000000000000000 + size - 1) / size
  let difference := (scale * (first + middle)) ^^^ (scale * (middle + last))
  if difference = 0 then 64 else 63 - difference.log2

/-- Joins a run with the runs before it, the nearest first, as long as their
nodes are at least as deep as `depth`. -/
def close (plan : Plan α) (depth : Nat) :
    List (Run α × Nat) → Run α → Except Fault (List (Run α × Nat) × Run α)
  | [], run => return ([], run)
  | (left, d) :: pending, run => do
    if depth ≤ d then close plan depth pending (← plan.join left run)
    else return ((left, d) :: pending, run)

/-- Cuts the rest of a list of `size` items, of which `offset` are cut already,
into runs and joins them; `pending` holds the runs before `run`, with the depth
of the node that joins each with what follows it. -/
def joinRuns (plan : Plan α) (size : Nat) :
    Nat → Nat → List α → List (Run α × Nat) → Run α → Except Fault (Run α)
  | _, _, [], pending, run => do return (← plan.close 0 pending run).2
  | 0, _, _ :: _, _, _ => throw .unbounded
  | fuel + 1, offset, x :: xs, pending, run => do
    let (next, rest) ← plan.nextRun (shortestRun size) (size - offset) (x :: xs)
    let stop := offset + next.items.length
    let depth := joinDepth size (offset - run.items.length) offset stop
    let (pending, run) ← plan.close depth pending run
    joinRuns plan size fuel stop rest ((run, depth) :: pending) next

def sort (plan : Plan α) (xs : List α) : Except Fault (List α) := do
  let size := xs.length
  if size < 2 then return xs
  let (run, rest) ← plan.nextRun (shortestRun size) size xs
  plan.sortedItems (← plan.joinRuns size size run.items.length rest [] run)

end Plan

end ObjectModel.Sorting
