import ObjectModel.Proofs.Iterator.Footprint

/-!
# How deep a step goes

Cursors step older iterators alone. So the number of cursors bounds how deep a step goes, and
a step of a cursor takes whole steps of the iterators that it reads.

Main statements: `Ordered.runOn_next` and `Ordered.touches_next`.
-/

namespace ObjectModel

open ObjectModel.Action

variable {s : Session} {r : Ref .cursor} {it : Value} {next next' : Value → Action (Option Value)}

-- ---------------------------------------------------------------------------
-- Steps that step alike
-- ---------------------------------------------------------------------------

theorem runOn_advanceRow_congr {R : Session → Session → Prop} [IsPreorder Session R]
    {its : List Value} (each : ∀ it ∈ its, ∀ t, R s t → (next it).runOn t = (next' it).runOn t ∧
      R t ((next it).runOn t).2) :
    (advanceRow next its).runOn s = (advanceRow next' its).runOn s := by
  induction its generalizing s with
  | nil => rfl
  | cons it its ih =>
    obtain ⟨first, rest⟩ := List.forall_mem_cons.1 each
    obtain ⟨same, later⟩ := first s (refl s)
    rw [advanceRow, advanceRow, runOn_bind, runOn_bind, ← same]
    generalize (next it).runOn s = item at later
    obtain ⟨e | ⟨_ | v⟩, t⟩ := item
    · rfl
    · rfl
    · have row := ih fun it hit u after => rest it hit u (trans_of R later after)
      simp only [runOn_bind, row]

/-- A cursor is stepped alike if its inputs are. -/
theorem runOn_advanceCursor_congr
    (each : ∀ v ∈ (s.heap.cursor r).inputs, (next v).runOn s = (next' v).runOn s)
    (row : (advanceRow next (s.heap.cursor r).inputs).runOn s =
      (advanceRow next' (s.heap.cursor r).inputs).runOn s) :
    (advanceCursor next r).runOn s = (advanceCursor next' r).runOn s := by
  rw [advanceCursor, advanceCursor, runOn_bind_of_ok (runOn_readCursor ..),
    runOn_bind_of_ok (runOn_readCursor ..)]
  cases hc : s.heap.cursor r with rw [hc] at each row
  | zip inputs done =>
    have row : (advanceRow next inputs).runOn s = (advanceRow next' inputs).runOn s := row
    by_cases finished : (done || inputs.isEmpty) = true
    · simp only [finished, ↓reduceIte]
    · simp only [if_neg finished, runOn_bind, row]
  | enumerate input counter =>
    simp only
    rw [runOn_bind, runOn_bind, each input (List.mem_singleton_self input)]

-- ---------------------------------------------------------------------------
-- Ordered heaps
-- ---------------------------------------------------------------------------

/-- Every cursor steps older iterators alone. -/
def Heap.Ordered (h : Heap) : Prop := ∀ r, (h.cursor r).Ordered r

theorem World.Models.ordered {w : World} {h : Heap} (models : w.Models h) : h.Ordered :=
  fun r => (models.moved r).ordered

theorem Session.Touches.ordered {touched : Value → Prop} {s t : Session}
    (touches : s.Touches touched t) (ordered : s.heap.Ordered) : t.heap.Ordered :=
  fun r v hv => ordered r v (touches.inputs r ▸ hv)

namespace Heap.Ordered

theorem level_le {h : Heap} {v : Value} (ordered : h.Ordered) (steps : h.Steps it v) :
    v.level ≤ it.level := by
  have below {r : Ref .cursor} {form : CursorKind} {u : Value} (hu : u ∈ (h.cursor r).inputs)
      (le : (Value.cursor form r).level ≤ it.level) : u.level ≤ it.level :=
    (ordered r u hu).trans ((Nat.le_succ _).trans le)
  induction steps with
  | self => exact Nat.le_refl _
  | zip _ hc hv ih => exact below (by rwa [hc]) ih
  | enumerate _ hc ih => exact below (by rw [hc]; exact List.mem_singleton_self _) ih

/-- A step that may go deep enough does not depend on how deep it may go. -/
theorem advance_eq {m n : Nat} (ordered : s.heap.Ordered) (hm : it.level ≤ m) (hn : it.level ≤ n) :
    (advance m it).runOn s = (advance n it).runOn s := by
  have positive : 0 < it.level := by cases it <;> exact Nat.succ_pos _
  induction m generalizing n it s with
  | zero => omega
  | succ m ih =>
    obtain ⟨n, rfl⟩ : ∃ k, n = k + 1 := Nat.exists_eq_add_one.2 (by omega)
    cases it with
    | cursor form r =>
      have hm : r.index + 1 ≤ m := Nat.le_of_succ_le_succ hm
      have hn : r.index + 1 ≤ n := Nat.le_of_succ_le_succ hn
      have input (v : Value) (hv : v ∈ (s.heap.cursor r).inputs) (t : Session)
          (later : s.Touches (fun _ => True) t) :
          (advance m v).runOn t = (advance n v).runOn t := by
        have le := ordered r v hv
        refine ih (later.ordered ordered) (le.trans hm) (le.trans hn) ?_
        cases v <;> exact Nat.succ_pos _
      refine runOn_advanceCursor_congr (fun v hv => input v hv s (refl s)) ?_
      refine runOn_advanceRow_congr fun v hv t later => ⟨input v hv t later, ?_⟩
      exact (touches_advance m v t).mono fun _ _ => trivial
    | _ => rfl

/-- A step of a cursor takes whole steps of the iterators that it reads. -/
theorem runOn_next (ordered : s.heap.Ordered) (form : CursorKind) (r : Ref .cursor) :
    (Action.next (.cursor form r)).runOn s = (advanceCursor Action.next r).runOn s := by
  have deep (v : Value) (hv : v ∈ (s.heap.cursor r).inputs) (t : Session)
      (later : s.Touches (fun _ => True) t) :
      (advance s.heap.cursors.size v).runOn t = (Action.next v).runOn t := by
    have inside : r.index < s.heap.cursors.size :=
      index_lt_of_cursor fun empty => by simp [empty, Cursor.inputs] at hv
    have le : v.level ≤ s.heap.cursors.size := (ordered r v hv).trans inside
    exact (later.ordered ordered).advance_eq le (le.trans (later.size.trans (Nat.le_succ _)))
  refine (ObjectModel.runOn_next form r s).trans ?_
  refine runOn_advanceCursor_congr (fun v hv => deep v hv s (refl s)) ?_
  refine runOn_advanceRow_congr fun v hv t later => ⟨deep v hv t later, ?_⟩
  exact (touches_advance _ v t).mono fun _ _ => trivial

/-- Stepping an iterator changes older iterators alone. -/
theorem touches_next {n : Nat} (ordered : s.heap.Ordered) (older : it.level ≤ n) :
    s.Touches (·.level ≤ n) ((Action.next it).runOn s).2 :=
  (ObjectModel.touches_next it s).mono fun _ steps => (ordered.level_le steps).trans older

theorem touches_advanceRow {n : Nat} {its : List Value} (ordered : s.heap.Ordered)
    (older : ∀ it ∈ its, it.level ≤ n) :
    s.Touches (·.level ≤ n) ((advanceRow Action.next its).runOn s).2 :=
  ObjectModel.touches_advanceRow fun it hit _ later =>
    (later.ordered ordered).touches_next (older it hit)

end Heap.Ordered

/-- A cursor stays where it is if older iterators alone have changed. -/
theorem Session.Touches.cursor_eq {t : Session} (touches : s.Touches (·.level ≤ r.index + 1) t) :
    t.heap.cursor r = s.heap.cursor r := by
  refine Content.cursor.inj (touches.content (.cursor .list r) fun u older => ?_)
  refine Bool.eq_false_iff.2 fun same => ?_
  have same := Value.is_iff.1 same
  cases u with
  | cursor form r' =>
    have here : r'.index = r.index := by simpa [Value.identity] using same
    exact absurd older (by simp [Value.level, here])
  | int | str | tuple =>
    simp only [Value.identity] at same
    split at same <;> cases same
  | _ => cases same

end ObjectModel
