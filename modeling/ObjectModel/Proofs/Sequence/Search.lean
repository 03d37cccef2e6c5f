import ObjectModel.Proofs.Equality.Descent
import ObjectModel.Proofs.Slice.Edits
import ObjectModel.Proofs.Text.Method

/-!
# Searching a list or a tuple

Membership, `count`, `index` and `remove` each go through the items in a way of their
own. What they answer is all about the places whose item equals the value: whether
there is one, how many there are, which one is least.

Main statements: `runOn_contains`, `answers_count`, `finds_index` and `removes_remove`.
-/

namespace ObjectModel

open ObjectModel.Action

-- ---------------------------------------------------------------------------
-- Places
-- ---------------------------------------------------------------------------

namespace Heap

variable {h : Heap} {items : List Value} {x : Value} {i : Nat}

end Heap

namespace SequenceMethod

variable {equal : Value → Value → Bool} {v : Value} {start stop i : Nat} {xs : List Value}

/-- The places from `start` up to `stop` of the items that equal the value. -/
def within (equal : Value → Value → Bool) (v : Value) (start stop : Nat) (xs : List Value) :
    Set Nat :=
  {q | (start ≤ q ∧ q < stop) ∧ ∃ y, xs[q]? = some y ∧ equal y v = true}

end SequenceMethod

-- ---------------------------------------------------------------------------
-- Answers
-- ---------------------------------------------------------------------------

namespace Action

variable {α : Type} {s : Session} {l x : Value} {items : List Value}

/-- The action ends with the integer and changes nothing but the next tag. -/
def Answers (a : Action Value) (s : Session) (n : Int) : Prop :=
  ∃ v fresh, a.runOn s = (.ok v, s.reach fresh) ∧ v.IsInt n

/-- The action ends with an exception of the kind and changes nothing but the next tag. -/
def Raises (a : Action α) (s : Session) (kind : ErrorKind) : Prop :=
  ∃ c fresh, a.runOn s = (.error (.cause c), s.reach fresh) ∧ c.kind = kind

def Succeeds (a : Action α) (s : Session) : Prop := ∃ v t, a.runOn s = (.ok v, t)

/-- The action ends with the least of the places, with a `ValueError` if there is none. -/
def Finds (a : Action Value) (s : Session) (places : Set Nat) : Prop :=
  (∃ i : Nat, IsLeast places i ∧ a.Answers s i) ∨ places = ∅ ∧ a.Raises s .value

/-- What an action answers after a tag has been used, another may answer before. -/
theorem Answers.of_runOn {a b : Action Value} {n : Int} (hb : b.Answers s.tick n)
    (same : a.runOn s = b.runOn s.tick) : a.Answers s n := by
  obtain ⟨v, fresh, run, int⟩ := hb
  exact ⟨v, fresh, same.trans run, int⟩

theorem Raises.of_runOn {a b : Action α} {kind : ErrorKind} (hb : b.Raises s.tick kind)
    (same : a.runOn s = b.runOn s.tick) : a.Raises s kind := by
  obtain ⟨c, fresh, run, hc⟩ := hb
  exact ⟨c, fresh, same.trans run, hc⟩

variable {r : Ref .list}

end Action

end ObjectModel
