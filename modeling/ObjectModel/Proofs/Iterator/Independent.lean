import ObjectModel.Proofs.Iterator.Depth

/-!
# Independent iterators

Iterators are independent if each of them gives its items in whatever order they are stepped.
In between anything may happen to objects other than those that they depend on.

Main statements: `Independent.advanceRow_some` and `Independent.advanceRow_none`.
-/

namespace ObjectModel

open ObjectModel.Action

/-- The objects that are kept hold in the second heap what they hold in the first. As ever,
no cursors are lost and cursors step older iterators alone. -/
structure Heap.Spares (kept : Value → Prop) (h h' : Heap) : Prop where
  content : ∀ v, kept v → h'.content v = h.content v
  size : h.cursors.size ≤ h'.cursors.size
  ordered : h'.Ordered

/-- The iterators have been stepped in some order, each as often as it says. What has happened in
between has spared the objects that are kept. -/
inductive Interleaved (kept : Value → Prop) (its : List Value) (s : Session) :
    (Fin its.length → Nat) → Session → Prop
  | start : Interleaved kept its s (fun _ => 0) s
  | step {n : Fin its.length → Nat} {t u : Session} {found : Option Value} (j : Fin its.length) :
    Interleaved kept its s n t → (next its[j]).runOn t = (.ok found, u) →
    Interleaved kept its s (Function.update n j (n j + 1)) u
  | other {n : Fin its.length → Nat} {t u : Session} : Interleaved kept its s n t →
    t.heap.Spares kept u.heap → Interleaved kept its s n u

/-- In whatever order the iterators are stepped, each gives values that are its items, one after
the other, and then nothing. -/
def Independent (kept : Value → Prop) (its : List Value)
    (items : Fin its.length → List (Value → Prop)) (s : Session) : Prop :=
  ∀ n t, Interleaved kept its s n t → ∀ j, ∃ found u, (next its[j]).runOn t = (.ok found, u) ∧
    Option.Rel (fun item v => item v) (items j)[n j]? found

/-- A row has one value for each iterator, which is its item at the place. -/
def IsRow {k : Nat} (items : Fin k → List (Value → Prop)) (i : Nat) (row : List Value) : Prop :=
  row.length = k ∧ ∀ j : Fin k, ∃ item v, (items j)[i]? = some item ∧ row[j.1]? = some v ∧ item v

variable {kept : Value → Prop} {its : List Value} {s t u : Session}
  {items : Fin its.length → List (Value → Prop)} {i k : Nat}

-- ---------------------------------------------------------------------------
-- Rows
-- ---------------------------------------------------------------------------

/-- As many steps of each iterator, and one more of those before a place. -/
def stepped {l : Nat} (k i : Nat) (j : Fin l) : Nat := if j.1 < k then i + 1 else i

theorem stepped_zero {l : Nat} (i : Nat) : stepped (l := l) 0 i = fun _ => i :=
  funext fun _ => if_neg (Nat.not_lt_zero _)

theorem stepped_length {l : Nat} (i : Nat) : stepped (l := l) l i = fun _ => i + 1 :=
  funext fun j => if_pos j.2

theorem update_stepped {l : Nat} (j : Fin l) (i : Nat) :
    Function.update (stepped j.1 i) j (stepped j.1 i j + 1) = stepped (j.1 + 1) i := by
  funext j'
  rw [Function.update_apply]
  by_cases here : j' = j
  · simp [here, stepped]
  · have other : j'.1 ≠ j.1 := fun same => here (Fin.ext same)
    have : j'.1 < j.1 ↔ j'.1 < j.1 + 1 := by omega
    simp only [here, stepped, this, if_false]

namespace Independent

variable (independent : Independent kept its items s)
include independent

theorem next_some {j : Fin its.length} (run : Interleaved kept its s (stepped j.1 i) t)
    (inside : i < (items j).length) : ∃ v u, (next its[j]).runOn t = (.ok (some v), u) ∧
      (items j)[i] v ∧ Interleaved kept its s (stepped (j.1 + 1) i) u := by
  have here : stepped j.1 i j = i := if_neg (Nat.lt_irrefl _)
  obtain ⟨found, u, next, shown⟩ := independent _ t run j
  rw [here, List.getElem?_eq_getElem inside] at shown
  cases shown with
  | @some item v shown => exact ⟨v, u, next, shown, update_stepped j i ▸ run.step j next⟩

theorem next_none {j : Fin its.length} (run : Interleaved kept its s (stepped j.1 i) t)
    (ended : (items j).length = i) : ∃ u, (next its[j]).runOn t = (.ok none, u) ∧
      Interleaved kept its s (stepped (j.1 + 1) i) u := by
  have here : stepped j.1 i j = i := if_neg (Nat.lt_irrefl _)
  obtain ⟨found, u, next, shown⟩ := independent _ t run j
  rw [here, List.getElem?_eq_none ended.le] at shown
  cases shown with
  | none => exact ⟨u, next, update_stepped j i ▸ run.step j next⟩

/-- Iterators that all have another item give a row. -/
theorem advanceRow_some (run : Interleaved kept its s (stepped k i) t) (le : k ≤ its.length)
    (inside : ∀ j : Fin its.length, k ≤ j.1 → i < (items j).length) : ∃ row u,
      (advanceRow next (its.drop k)).runOn t = (.ok (some row), u) ∧
      row.length = its.length - k ∧ (∀ j : Fin its.length, k ≤ j.1 → ∃ item v,
        (items j)[i]? = some item ∧ row[j.1 - k]? = some v ∧ item v) ∧
      Interleaved kept its s (fun _ => i + 1) u := by
  obtain ⟨l, hl⟩ : ∃ l, l = its.length - k := ⟨_, rfl⟩
  induction l generalizing k t with
  | zero =>
    obtain rfl : k = its.length := by omega
    rw [List.drop_length, ← stepped_length i]
    exact ⟨[], t, rfl, by simp, fun j hj => absurd j.2 (Nat.not_lt.2 hj), run⟩
  | succ l ih =>
    have more : k < its.length := by omega
    obtain ⟨v, u, first, shown, run'⟩ :=
      independent.next_some (j := ⟨k, more⟩) run (inside ⟨k, more⟩ (Nat.le_refl k))
    have first : (next its[k]).runOn t = (.ok (some v), u) := first
    have left : l = its.length - (k + 1) := by omega
    obtain ⟨row, u', rest, length, shows, run''⟩ :=
      ih run' more (fun j hj => inside j (Nat.le_of_succ_le hj)) left
    refine ⟨v :: row, u', ?_, by rw [List.length_cons, length, ← left, hl], fun j hj => ?_, run''⟩
    · rw [List.drop_eq_getElem_cons more, advanceRow, runOn_bind_of_ok first]
      exact runOn_bind_of_ok rest _
    · by_cases here : k = j.1
      · obtain rfl : j = ⟨k, more⟩ := Fin.ext here.symm
        refine ⟨_, v, List.getElem?_eq_getElem (inside _ hj), ?_, shown⟩
        rw [Nat.sub_self, List.getElem?_cons_zero]
      · have later : k + 1 ≤ j.1 := by omega
        have place : j.1 - k = j.1 - (k + 1) + 1 := by omega
        rw [place, List.getElem?_cons_succ]
        exact shows j later

/-- The first iterator that is exhausted is the last that is stepped. -/
theorem advanceRow_none (run : Interleaved kept its s (stepped k i) t) (j : Fin its.length)
    (le : k ≤ j.1) (ended : (items j).length = i)
    (inside : ∀ j' < j, k ≤ j'.1 → i < (items j').length) : ∃ u,
      (advanceRow next (its.drop k)).runOn t = (.ok none, u) ∧
      Interleaved kept its s (stepped (j.1 + 1) i) u := by
  obtain ⟨l, hl⟩ : ∃ l, l = j.1 - k := ⟨_, rfl⟩
  induction l generalizing k t with
  | zero =>
    obtain rfl : k = j.1 := by omega
    obtain ⟨u, first, run'⟩ := independent.next_none run ended
    refine ⟨u, ?_, run'⟩
    rw [List.drop_eq_getElem_cons j.2, advanceRow]
    exact runOn_bind_of_ok first _
  | succ l ih =>
    have before : k < j.1 := by omega
    have more : k < its.length := before.trans j.2
    obtain ⟨v, u, first, -, run'⟩ :=
      independent.next_some (j := ⟨k, more⟩) run (inside ⟨k, more⟩ before (Nat.le_refl k))
    have first : (next its[k]).runOn t = (.ok (some v), u) := first
    have left : l = j.1 - (k + 1) := by omega
    obtain ⟨u', rest, run''⟩ :=
      ih run' before (fun j' lt hj' => inside j' lt (Nat.le_of_succ_le hj')) left
    refine ⟨u', ?_, run''⟩
    rw [List.drop_eq_getElem_cons more, advanceRow, runOn_bind_of_ok first]
    exact runOn_bind_of_ok rest _

end Independent

end ObjectModel
