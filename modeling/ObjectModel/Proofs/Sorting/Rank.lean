import Mathlib.Data.List.MinMax
import Mathlib.Order.OrderDual
import Mathlib.Order.Lattice
import ObjectModel.Proofs.Sorting.Rearrangement

/-!
# Ranks

A comparison that never fails ranks the items: one goes before another where its
rank is less. A list sorts to a list whose ranks ascend and which has the items
of each rank in the order in which the list has them; there is one such list.

Main statements: `SortsTo.unique`, `SortsTo.perm` and `SortsTo.argmin_eq`.
-/

namespace ObjectModel.Sorting

variable {α β γ : Type} [LinearOrder β] {rank : α → β} {k : β} {x y : α} {xs ys zs us vs : List α}

-- ---------------------------------------------------------------------------
-- Levels
-- ---------------------------------------------------------------------------

/-- The items of one rank, in order. -/
def level (rank : α → β) (k : β) (xs : List α) : List α := xs.filter (rank · = k)

@[simp] theorem level_nil : level rank k [] = [] := rfl

@[simp] theorem level_append : level rank k (xs ++ ys) = level rank k xs ++ level rank k ys :=
  List.filter_append ..

theorem level_cons (x : α) (xs : List α) :
    level rank k (x :: xs) = level rank k [x] ++ level rank k xs :=
  List.filter_append [x] xs

@[simp] theorem level_reverse : level rank k xs.reverse = (level rank k xs).reverse :=
  List.filter_reverse

theorem level_self : level rank (rank x) [x] = [x] := by simp [level]

theorem mem_level : x ∈ level rank k xs ↔ x ∈ xs ∧ rank x = k := by simp [level]

theorem level_eq_nil (h : ∀ x ∈ xs, rank x ≠ k) : level rank k xs = [] := by
  simpa [level] using h

/-- Stretches without a common rank can change places. -/
theorem level_comm (h : ∀ x ∈ xs, ∀ y ∈ ys, rank x ≠ rank y) :
    level rank k xs ++ level rank k ys = level rank k ys ++ level rank k xs := by
  by_cases hx : ∃ x ∈ xs, rank x = k
  · obtain ⟨x, hx, rfl⟩ := hx
    have none_right : level rank (rank x) ys = [] := level_eq_nil fun y hy => (h x hx y hy).symm
    simp [none_right]
  · have none_left : level rank k xs = [] := level_eq_nil fun x h e => hx ⟨x, h, e⟩
    simp [none_left]

/-- Items of pairwise different ranks have no order to keep. -/
theorem level_reverse_of_ascends (h : xs.Pairwise (rank · < rank ·)) :
    (level rank k xs).reverse = level rank k xs := by
  induction xs with
  | nil => rfl
  | cons x xs ih =>
    obtain ⟨least, rest⟩ := List.pairwise_cons.1 h
    have single : (level rank k [x]).reverse = level rank k [x] := level_reverse.symm
    rw [level_cons, List.reverse_append, ih rest, single]
    refine level_comm fun y hy z hz => ?_
    obtain rfl : z = x := by simpa using hz
    exact (least y hy).ne'

-- ---------------------------------------------------------------------------
-- Sorted lists
-- ---------------------------------------------------------------------------

/-- The second list is the first one sorted, with the items of each rank in the
order in which the first has them. -/
structure SortsTo (rank : α → β) (xs ys : List α) : Prop where
  ascends : ys.Pairwise (rank · ≤ rank ·)
  level_eq : ∀ k, level rank k ys = level rank k xs

namespace SortsTo

theorem of_ascends (h : xs.Pairwise (rank · ≤ rank ·)) : SortsTo rank xs xs := ⟨h, fun _ => rfl⟩

theorem mem_iff (h : SortsTo rank xs ys) : x ∈ ys ↔ x ∈ xs := by
  have : x ∈ level rank (rank x) ys ↔ x ∈ level rank (rank x) xs := by rw [h.level_eq]
  simpa [mem_level] using this

theorem forall_mem {P : α → Prop} (h : SortsTo rank xs ys) (all : ∀ x ∈ xs, P x) : ∀ y ∈ ys, P y :=
  fun y hy => all y (h.mem_iff.1 hy)

open Classical in
theorem perm (h : SortsTo rank xs ys) : ys.Perm xs := by
  refine List.perm_iff_count.2 fun x => ?_
  have same := congrArg (List.count x) (h.level_eq (rank x))
  rwa [level, level, List.count_filter (by simp), List.count_filter (by simp)] at same

theorem length_eq (h : SortsTo rank xs ys) : ys.length = xs.length := h.perm.length_eq

theorem congr (h : SortsTo rank xs ys) (same : ∀ k, level rank k xs = level rank k us) :
    SortsTo rank us ys := ⟨h.ascends, fun k => (h.level_eq k).trans (same k)⟩

/-- Sorted parts can stand for what they have been sorted from. -/
theorem parts (h : SortsTo rank (xs ++ ys) zs) (hx : SortsTo rank us xs) (hy : SortsTo rank vs ys) :
    SortsTo rank (us ++ vs) zs :=
  h.congr fun k => by simp [hx.level_eq, hy.level_eq]

theorem part (h : SortsTo rank (xs ++ ys) zs) (hx : SortsTo rank us xs) :
    SortsTo rank (us ++ ys) zs :=
  h.congr fun k => by simp [hx.level_eq]

/-- An item that no other is less than, and that comes first, comes first. -/
theorem cons_left (h : SortsTo rank (xs ++ ys) zs) (hx : ∀ z ∈ xs, rank x ≤ rank z)
    (hy : ∀ z ∈ ys, rank x ≤ rank z) : SortsTo rank (x :: xs ++ ys) (x :: zs) where
  ascends := List.pairwise_cons.2
    ⟨h.forall_mem fun z hz => (List.mem_append.1 hz).elim (hx z) (hy z), h.ascends⟩
  level_eq k := by
    rw [level_cons, h.level_eq, List.cons_append, level_cons x (xs ++ ys)]

/-- An item that is less than all that stand before it, and that no other is less
than, comes first. -/
theorem cons_right (h : SortsTo rank (xs ++ ys) zs) (hx : ∀ z ∈ xs, rank y < rank z)
    (hy : ∀ z ∈ ys, rank y ≤ rank z) : SortsTo rank (xs ++ y :: ys) (y :: zs) where
  ascends := List.pairwise_cons.2
    ⟨h.forall_mem fun z hz => (List.mem_append.1 hz).elim (fun h => (hx z h).le) (hy z), h.ascends⟩
  level_eq k := by
    have swap : level rank k [y] ++ level rank k xs = level rank k xs ++ level rank k [y] :=
      level_comm fun z hz z' hz' => by
        obtain rfl : z = y := by simpa using hz
        exact (hx z' hz').ne
    rw [level_cons, h.level_eq, level_append, level_append, level_cons y ys,
      ← List.append_assoc, swap, List.append_assoc]

/-- Two ascending lists with the same items of each rank start alike. -/
theorem head_eq (h : SortsTo rank (y :: ys) (z :: zs))
    (ascends : (y :: ys).Pairwise (rank · ≤ rank ·)) : y = z := by
  have le : rank z ≤ rank y := by
    obtain rfl | hy := List.mem_cons.1 (h.mem_iff.2 List.mem_cons_self)
    · exact le_rfl
    · exact List.rel_of_pairwise_cons h.ascends hy
  have ge : rank y ≤ rank z := by
    obtain rfl | hz := List.mem_cons.1 (h.mem_iff.1 List.mem_cons_self)
    · exact le_rfl
    · exact List.rel_of_pairwise_cons ascends hz
  have first := h.level_eq (rank y)
  rw [level_cons, level_cons y ys, level_self, le_antisymm ge le, level_self] at first
  exact (List.cons.inj first).1.symm

theorem eq_of_ascends (h : SortsTo rank ys zs) (ascends : ys.Pairwise (rank · ≤ rank ·)) :
    ys = zs := by
  induction ys generalizing zs with
  | nil => exact (List.length_eq_zero_iff.1 h.length_eq).symm
  | cons y ys ih =>
    obtain ⟨z, zs, rfl⟩ := List.exists_cons_of_length_eq_add_one h.length_eq
    obtain rfl := h.head_eq ascends
    have rest : SortsTo rank ys zs := ⟨(List.pairwise_cons.1 h.ascends).2, fun k => by
      have both := h.level_eq k
      rw [level_cons, level_cons y ys] at both
      exact List.append_cancel_left both⟩
    rw [ih rest (List.pairwise_cons.1 ascends).2]

/-- A list sorts to one list only. -/
theorem unique (h : SortsTo rank xs ys) (h' : SortsTo rank xs zs) : ys = zs :=
  (h'.congr fun k => (h.level_eq k).symm).eq_of_ascends h.ascends

/-- Those before the item that comes first are of higher ranks, and none is of a lower
one. -/
theorem exists_split (h : SortsTo rank xs (y :: ys)) : ∃ before after,
    xs = before ++ y :: after ∧ (∀ x ∈ before, rank y < rank x) ∧ ∀ x ∈ xs, rank y ≤ rank x := by
  obtain ⟨least, -⟩ := List.pairwise_cons.1 h.ascends
  have le (x : α) (hx : x ∈ xs) : rank y ≤ rank x := by
    obtain rfl | hx := List.mem_cons.1 (h.mem_iff.2 hx)
    · exact le_rfl
    · exact least x hx
  have first : level rank (rank y) xs = y :: level rank (rank y) ys := by
    rw [← h.level_eq, level_cons, level_self, List.singleton_append]
  obtain ⟨before, after, rfl, others, -, -⟩ := List.filter_eq_cons_iff.1 first
  refine ⟨before, after, rfl, fun x hx => ?_, le⟩
  have apart : rank x ≠ rank y := by simpa using others x hx
  exact lt_of_le_of_ne (le x (List.mem_append_left _ hx)) apart.symm

open Classical in
/-- What comes first is the first item of least rank. -/
theorem argmin_eq (h : SortsTo rank xs (y :: ys)) : xs.argmin rank = some y := by
  obtain ⟨before, after, rfl, higher, least⟩ := h.exists_split
  have new : y ∉ before := fun hy => lt_irrefl _ (higher y hy)
  refine List.mem_argmin_iff.2 ⟨by simp, least, fun x hx le => ?_⟩
  have new' : x ∉ before := fun hx => (higher x hx).not_ge le
  rw [List.idxOf_append_of_notMem new, List.idxOf_append_of_notMem new', List.idxOf_cons_self]
  exact Nat.le_add_right ..

theorem level_toDual (k : βᵒᵈ) :
    level (OrderDual.toDual ∘ rank) k xs = level rank (OrderDual.ofDual k) xs :=
  List.filter_congr fun _ _ => rfl

/-- Turned around, a list sorts by the order turned around. -/
theorem turn (h : SortsTo rank xs ys) :
    SortsTo (OrderDual.toDual ∘ rank) xs.reverse ys.reverse where
  ascends := List.pairwise_reverse.2 h.ascends
  level_eq k := by simp only [level_reverse, level_toDual, h.level_eq]

theorem of_turn (h : SortsTo (OrderDual.toDual ∘ rank) xs ys) :
    SortsTo rank xs.reverse ys.reverse where
  ascends := List.pairwise_reverse.2 h.ascends
  level_eq k := by
    have same := h.level_eq (OrderDual.toDual k)
    simp only [level_toDual, OrderDual.ofDual_toDual] at same
    simp only [level_reverse, same]

end SortsTo

-- ---------------------------------------------------------------------------
-- Comparisons by rank
-- ---------------------------------------------------------------------------

/-- Of certain items, one goes before another exactly if its rank is less. -/
def Decides (rank : α → β) (S : α → Prop) (before : Before α) : Prop :=
  ∀ x y, S x → S y → before x y = .ok (decide (rank x < rank y))

/-- A computation gives a value, which satisfies `Q`. -/
abbrev Succeeds (Q : γ → Prop) (a : Except Fault γ) : Prop := Outcome (fun _ => False) Q a

theorem ok_bind {δ : Type} (v : γ) (f : γ → Except Fault δ) : (Except.ok v >>= f) = f v := rfl

theorem Succeeds.exists_eq_ok {Q : γ → Prop} {a : Except Fault γ} (h : Succeeds Q a) :
    ∃ value, a = .ok value ∧ Q value := by
  cases a with
  | ok value => exact ⟨value, rfl, h⟩
  | error f => exact h.elim

theorem Decides.ask {S : α → Prop} {before : Before α} {Q : γ → Prop} {f : Bool → Except Fault γ}
    (hd : Decides rank S before) (hx : S x) (hy : S y)
    (less : rank x < rank y → Succeeds Q (f true))
    (other : rank y ≤ rank x → Succeeds Q (f false)) : Succeeds Q (before x y >>= f) := by
  rw [hd x y hx hy]
  by_cases h : rank x < rank y
  · rw [decide_eq_true h]
    exact less h
  · rw [decide_eq_false h]
    exact other (not_lt.1 h)

end ObjectModel.Sorting
