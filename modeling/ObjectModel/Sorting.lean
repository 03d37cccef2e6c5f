import ObjectModel.Heap.Order
import ObjectModel.Sorting.Partition

/-!
# Sorting

A stable sort over a comparison that may fail: short lists by insertion, longer
ones by their runs. The outcome is always a rearrangement of the input, together
with the first failure.
-/

namespace ObjectModel.Sorting

variable {α : Type}

/-- The length up to which items are sorted by insertion. -/
def insertionLimit : Nat := 20

/-- Sorts a long list by its runs. Up to the length of two blocks, all runs are
blocks. -/
def sortLong (before : Before α) (byEights : Bool) (xs : List α) : Except Fault (List α) :=
  Plan.sort ⟨before, byEights, xs.length ≤ 2 * blockLimit, sortScattered before byEights⟩ xs

/-- The sorted items, or a rearrangement with the first failure. -/
def sort (lt : α → α → Except Fault Bool) (byEights reverse : Bool) (xs : List α) :
    List α × Option Fault :=
  let before := goesBefore lt reverse
  if xs.length ≤ insertionLimit then insertAll before [] xs
  else
    match sortLong before byEights xs with
    | .ok sorted => (sorted, none)
    | .error f => (xs, some f)

def sortValues (h : Heap) (reverse : Bool) (xs : List Value) : List Value × Option Fault :=
  sort (h.compare .lt) true reverse xs

/-- Sorts values by the scores that come with them. A scored value is too wide
to be presorted by eights. -/
def sortScored (h : Heap) (reverse : Bool) (xs : List (Value × Value)) :
    List (Value × Value) × Option Fault :=
  sort (fun x y => h.compare .lt x.1 y.1) false reverse xs

end ObjectModel.Sorting
