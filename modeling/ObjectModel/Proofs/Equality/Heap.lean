import ObjectModel.Proofs.Equality.Keyed

/-!
# Equality through the heap is an equivalence

Contents are compared by an equality of what they hold. If that is an
equivalence on a world then so is the comparison of contents, and with it the
equality one level further up. So every level of `Heap.equalsAt` is one.

Main statements: `lawful_contents` is the step, `equates_equalsAt` the
induction.
-/

namespace ObjectModel

/-- An equality that is symmetric and transitive on a world. -/
structure World.Equates (w : World) (equal : Value → Value → Bool) : Prop where
  symm : ∀ {a b : Value}, w.Has a → w.Has b → equal a b = true → equal b a = true
  trans : ∀ {a b c : Value}, w.Has a → w.Has b → w.Has c → equal a b = true →
    equal b c = true → equal a c = true

namespace Heap

theorem listsEqual_iff {equal : Value → Value → Bool} {xs ys : List Value} :
    listsEqual equal xs ys = true ↔ List.Forall₂ (fun x y => equal x y = true) xs ys := by
  induction xs generalizing ys with
  | nil => cases ys <;> simp [listsEqual]
  | cons x xs ih => cases ys <;> simp [listsEqual, ih]

section
variable {w : World} {equal : Value → Value → Bool} {s t : Table}

theorem sameEntries_iff (hs : w.Has s) (ht : w.Has t) :
    sameEntries equal s t = true ↔ s.Matches (fun x y => equal x y = true) t := by
  rw [Keyed.matches_of_find? hs ht, sameEntries, Bool.and_eq_true, beq_iff_eq, List.all_eq_true]
  refine and_congr_right fun _ => forall₂_congr fun e _ => ?_
  cases t.find? e.1 <;> simp

theorem itemsEqual_iff (hs : w.Has s) (ht : w.Has t) :
    viewsEqual equal s t .items .items = true ↔ s.Matches (fun x y => equal y x = true) t := by
  rw [Keyed.matches_of_find? hs ht, viewsEqual, Bool.and_eq_true, beq_iff_eq, List.all_eq_true]
  refine and_congr_right fun _ => forall₂_congr fun e _ => ?_
  cases t.find? e.1 <;> simp

theorem keysEqual_iff (hs : w.Has s) (ht : w.Has t) :
    viewsEqual equal s t .keys .keys = true ↔ s.Matches (fun _ _ => True) t := by
  rw [Keyed.matches_of_contains hs ht, viewsEqual, Bool.and_eq_true, beq_iff_eq, List.all_eq_true]

theorem setsEqual_iff {s t : KeySet} (hs : w.Has s) (ht : w.Has t) :
    s.same t = true ↔ s.Matches (fun _ _ => True) t := by
  rw [Keyed.matches_of_contains hs ht, KeySet.same, KeySet.isSubset]
  simp only [Bool.and_eq_true, beq_iff_eq, decide_eq_true_eq, List.all_eq_true]
  exact ⟨fun ⟨hsize, _, hall⟩ => ⟨hsize, hall⟩, fun ⟨hsize, hall⟩ => ⟨hsize, hsize.le, hall⟩⟩

end

section
variable {w : World} {h : Heap} {equal : Value → Value → Bool}

/-- Comparing contents is lawful if comparing what they hold is. -/
theorem lawful_contents (models : w.Models h) (equates : w.Equates equal) :
    Value.Lawful w (h.contentsEqual equal) where
  symm {a b} ha hb hm hs := by
    have symm (x y : Value) (hx : w.Has x) (hy : w.Has y) : equal x y = true → equal y x = true :=
      equates.symm hx hy
    cases hm with
    | bytesBytearray | bytearrayBytes | bytearray =>
      simp only [contentsEqual, bytesOf?, beq_iff_eq] at hs ⊢
      exact hs.symm
    | @list r s =>
      simp only [contentsEqual, listsEqual_iff] at hs ⊢
      exact forall₂_symm hs fun x hx y hy => symm x y (models.list r x hx) (models.list s y hy)
    | @dict r s =>
      simp only [contentsEqual] at hs ⊢
      rw [sameEntries_iff (models.dict _) (models.dict _)] at hs ⊢
      exact hs.symm (models.dict r) (models.dict s) symm
    | @set r s =>
      simp only [contentsEqual] at hs ⊢
      rw [setsEqual_iff (models.set _) (models.set _)] at hs ⊢
      exact hs.symm (models.set r) (models.set s) fun _ _ _ _ => id
    | @view tag p r tag' q s =>
      simp only [contentsEqual] at hs ⊢
      cases p <;> cases q <;> try cases hs
      · rw [keysEqual_iff (models.dict _) (models.dict _)] at hs ⊢
        exact hs.symm (models.dict r) (models.dict s) fun _ _ _ _ => id
      · rw [itemsEqual_iff (models.dict _) (models.dict _)] at hs ⊢
        exact hs.symm (models.dict r) (models.dict s) fun x y hx hy => symm y x hy hx
  trans {a b c} ha hb hc hab hbc hac hs hs' := by
    have trans (x y z : Value) (hx : w.Has x) (hy : w.Has y) (hz : w.Has z) :
        equal x y = true → equal y z = true → equal x z = true := equates.trans hx hy hz
    cases hab with
    | bytesBytearray | bytearrayBytes | bytearray =>
      cases hbc <;> cases hac <;> simp only [contentsEqual, bytesOf?, beq_iff_eq] at hs hs' ⊢ <;>
        exact hs.trans hs'
    | @list r s =>
      cases hbc with
      | @list _ t =>
        simp only [contentsEqual, listsEqual_iff] at hs hs' ⊢
        exact forall₂_trans hs hs' fun x hx y hy z hz =>
          trans x y z (models.list r x hx) (models.list s y hy) (models.list t z hz)
    | @dict r s =>
      cases hbc with
      | @dict _ t =>
        simp only [contentsEqual] at hs hs' ⊢
        rw [sameEntries_iff (models.dict _) (models.dict _)] at hs hs' ⊢
        exact hs.trans (models.dict r) (models.dict s) (models.dict t) trans hs'
    | @set r s =>
      cases hbc with
      | @set _ t =>
        simp only [contentsEqual] at hs hs' ⊢
        rw [setsEqual_iff (models.set _) (models.set _)] at hs hs' ⊢
        exact hs.trans (models.set r) (models.set s) (models.set t) (fun _ _ _ _ _ _ _ => id) hs'
    | @view _ p r _ q s =>
      cases hbc with
      | @view _ _ _ _ o t =>
        simp only [contentsEqual] at hs hs' ⊢
        cases p <;> cases q <;> try cases hs
        · cases o <;> try cases hs'
          rw [keysEqual_iff (models.dict _) (models.dict _)] at hs hs' ⊢
          exact hs.trans (models.dict r) (models.dict s) (models.dict t)
            (fun _ _ _ _ _ _ _ => id) hs'
        · cases o <;> try cases hs'
          rw [itemsEqual_iff (models.dict _) (models.dict _)] at hs hs' ⊢
          exact hs.trans (models.dict r) (models.dict s) (models.dict t)
            (fun x y z hx hy hz hyx hzy => trans z y x hz hy hx hzy hyx) hs'
  bytes_eq hs hs' := by
    simp only [contentsEqual, bytesOf?, beq_iff_eq] at hs hs'
    exact hs.trans hs'
  bytes_tag hs := hs

end

end Heap

theorem Value.Lawful.equates {w : World} {stored : Value → Value → Bool}
    (lawful : Value.Lawful w stored) : w.Equates (Value.equalsWith stored) :=
  ⟨Value.equalsWith_symm lawful, Value.equalsWith_trans lawful⟩

namespace Heap

theorem equates_equalsAt {w : World} {h : Heap} (models : w.Models h) (n : Nat) :
    w.Equates (h.equalsAt n) := by
  induction n with
  | zero => exact (Value.lawful_sameKey w).equates
  | succ n ih => exact (lawful_contents models ih).equates

theorem equates_equals {w : World} {h : Heap} (models : w.Models h) : w.Equates h.equals :=
  equates_equalsAt models h.depth

theorem equals_refl (h : Heap) (a : Value) : h.equals a a = true := Value.equalsWith_refl a

end Heap

end ObjectModel
