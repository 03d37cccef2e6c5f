import ObjectModel.Value.Equality
import ObjectModel.Value.Hash

/-!
# Keys

A key is a hashable value with its hash code. Equal codes only nominate; the
values decide.
-/

namespace ObjectModel

/-- A hashable value together with its hash code. -/
structure Key where
  value : Value
  hash : Int64
  hash_eq : value.hash = .ok hash

namespace Key

def ofValue (v : Value) : Except Cause Key :=
  match h : v.hash with
  | .ok n => .ok ⟨v, n, h⟩
  | .error c => .error c

/-- Keys are the same when their codes agree and their values are equal. -/
def same (a b : Key) : Bool := a.hash == b.hash && a.value.sameKey b.value

theorem ofValue_value (k : Key) : ofValue k.value = .ok k := by
  unfold ofValue
  split
  · next n h =>
    cases h.symm.trans k.hash_eq
    rfl
  · next h => cases h.symm.trans k.hash_eq

end Key

end ObjectModel
