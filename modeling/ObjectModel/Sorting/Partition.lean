import ObjectModel.Sorting.Run

/-!
# Partitioning

A stretch without order is split around one of its items, the pivot: what goes
before it, and the rest. Both parts keep the order in which their items were. A
pivot that comes up twice splits off the items that are equivalent to it. After
too many splits the stretch is sorted by its runs.
-/

namespace ObjectModel.Sorting

variable {α : Type}

/-- The one of three lists whose first item is in the middle. -/
def medianHead (before : Before α) (a b c : List α) : Except Fault (List α) := do
  match a, b, c with
  | x :: _, y :: _, z :: _ =>
    let xy ← before x y
    let xz ← before x z
    if xy == xz then
      let yz ← before y z
      return if yz != xy then c else b
    else return a
  | _, _, _ => return a

/-- An item near the middle of the `n` first items of each of three lists, as the
list that it starts. -/
def medianFrom (before : Before α) (n : Nat) (a b c : List α) : Except Fault (List α) := do
  if h : 8 ≤ n then
    let inner (xs : List α) : Except Fault (List α) :=
      medianFrom before (n / 8) xs (xs.drop (n / 8 * 4)) (xs.drop (n / 8 * 7))
    let a ← inner a
    let b ← inner b
    let c ← inner c
    medianHead before a b c
  else medianHead before a b c
termination_by n
decreasing_by exact Nat.div_lt_self (by omega) (by omega)

def pivotSuffix (before : Before α) (xs : List α) : Except Fault (List α) :=
  let n := xs.length / 8
  medianFrom before n xs (xs.drop (n * 4)) (xs.drop (n * 7))

/-- Splits a list by a test; `passed` and `failed` list the items tested so far,
the last first. -/
def separate (test : α → Except Fault Bool) (passed failed : List α) :
    List α → Except Fault (List α × List α)
  | [] => return (passed, failed)
  | x :: xs => do
    if ← test x then separate test (x :: passed) failed xs
    else separate test passed (x :: failed) xs

/-- Splits the items before and after a pivot by a test; the pivot itself goes
where `pivotPasses` says. -/
def splitAround (test : α → Except Fault Bool) (pivotPasses : Bool) (front : List α) (pivot : α)
    (back : List α) : Except Fault (List α × List α) := do
  let (passed, failed) ← separate test [] [] front
  let (passed, failed) :=
    if pivotPasses then (pivot :: passed, failed) else (passed, pivot :: failed)
  let (passed, failed) ← separate test passed failed back
  return (passed.reverse, failed.reverse)

/-- The pivot is equivalent to the one that all items follow, if there is one. -/
def isRepeated (before : Before α) (ancestor : Option α) (pivot : α) : Except Fault Bool :=
  match ancestor with
  | some a => Bool.not <$> before a pivot
  | none => pure false

/-- What goes before a pivot, and the rest; nothing goes before a repeated one. -/
def splitLess (before : Before α) (repeated : Bool) (front : List α) (pivot : α) (back : List α) :
    Except Fault (List α × List α) :=
  if repeated then pure ([], front ++ pivot :: back)
  else splitAround (before · pivot) false front pivot back

/-- What is equivalent to a pivot that nothing goes before, and the rest. -/
def splitEquivalent (before : Before α) (front : List α) (pivot : α) (back : List α) :
    Except Fault (List α × List α) :=
  splitAround (fun x => Bool.not <$> before pivot x) true front pivot back

/-- Sorts a list of pairwise unrelated runs by at most `splits` splits on any
path; `ancestor` is the pivot that all items follow, if there is one. -/
def partitionSort (before : Before α) (byEights : Bool) :
    Nat → Option α → List α → Except Fault (List α)
  | splits, ancestor, xs => do
    if xs.length ≤ blockLimit then sortBlock before byEights xs
    else
      match splits with
      | 0 => Plan.sort ⟨before, byEights, true, fun ys => return ys⟩ xs
      | splits + 1 =>
        match ← pivotSuffix before xs with
        | [] => return xs
        | pivot :: back =>
          let front := xs.take (xs.length - back.length - 1)
          let repeated ← isRepeated before ancestor pivot
          let (less, others) ← splitLess before repeated front pivot back
          if less.isEmpty then
            let (equivalent, greater) ← splitEquivalent before front pivot back
            return equivalent ++ (← partitionSort before byEights splits none greater)
          else
            let others ← partitionSort before byEights splits (some pivot) others
            return (← partitionSort before byEights splits ancestor less) ++ others

/-- Sorts a list that has no runs worth keeping. -/
def sortScattered (before : Before α) (byEights : Bool) (xs : List α) : Except Fault (List α) :=
  partitionSort before byEights (2 * xs.length.log2) none xs

end ObjectModel.Sorting
