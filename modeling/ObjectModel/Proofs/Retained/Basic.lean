import ObjectModel.Proofs.Content
import ObjectModel.Proofs.Quiet

/-!
# What actions leave of a list

An action retains a list if the list, once it has been made, holds what it held.
What is quiet and what only makes objects does so, and so does writing to dicts,
sets, bytearrays and other lists.
-/

namespace ObjectModel

open ObjectModel.Action

/-- The list, if it has been made, holds what it held. -/
def Session.Retains (r : Ref .list) (s t : Session) : Prop :=
  r.index < s.heap.lists.size → r.index < t.heap.lists.size ∧ t.heap.list r = s.heap.list r

theorem Store.size_le_size_set {α : Type} [Inhabited α] (s : Store α) (i : Nat) (x : α) :
    s.size ≤ (s.set i x).size := by
  rcases Nat.lt_or_ge i s.size with inside | outside
  · exact (s.size_set_of_lt x inside).ge
  · have beyond : ¬ i < s.cells.size := Nat.not_lt.2 outside
    simp only [set, size, dif_neg beyond, Array.size_push, Array.size_append]
    omega

variable {r : Ref .list}

namespace Session

variable {s t : Session}

theorem Retains.of_extends (more : s.heap.lists.Extends t.heap.lists) : s.Retains r t :=
  fun made => ⟨made.trans_le more.1, congrArg Array.toList (more.2 _ made)⟩

theorem Retains.of_eq (same : t.heap.lists = s.heap.lists) : s.Retains r t :=
  .of_extends (same ▸ .refl _)

theorem Retains.putList {r' : Ref .list} (other : r ≠ r') (xs : List Value) :
    s.Retains r { s with heap := s.heap.putList r' xs } :=
  fun made => ⟨made.trans_le (s.heap.lists.size_le_size_set ..), Heap.list_putList_of_ne _ xs other⟩

instance : Session.Closed (Session.Retains r) where
  refl _ := .of_eq rfl
  trans first second made :=
    have ⟨made', same⟩ := first made
    have ⟨made'', same'⟩ := second made'
    ⟨made'', same'.trans same⟩
  move step := .of_eq (congrArg (·.1) step.contents_eq)

end Session

open Session (Retains)

-- ---------------------------------------------------------------------------
-- Actions
-- ---------------------------------------------------------------------------

namespace Action.Within

variable {α β : Type}

theorem mapM {R : Session → Session → Prop} [IsPreorder Session R] {f : β → Action α}
    (hf : ∀ x, Within R (f x)) (xs : List β) : Within R (xs.mapM f) := by
  induction xs with
  | nil => exact pure _
  | cons x xs ih =>
    rw [List.mapM_cons]
    exact bind (hf x) fun _ => bind ih fun _ => pure _

end Action.Within

end ObjectModel
