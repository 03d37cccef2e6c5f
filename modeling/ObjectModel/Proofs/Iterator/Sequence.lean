import ObjectModel.Proofs.Iterator.Independent

/-!
# Iterators over sequences

An iterator over a sequence depends on its own place and on what the sequence holds. So
iterators that have been opened one after the other are independent, as long as the sequences
are left as they are.

Main statements: `independent_of_ahead` and `independent_of_elements`.
-/

namespace ObjectModel

open ObjectModel.Action

variable {kept : Value → Prop} {x : Value} {s t : Session} {its vs : List Value}

/-- Different cursors with elements ahead are independent if they and the sequences that they
read are kept. -/
theorem independent_of_ahead {refs : Fin its.length → Ref .cursor} {source : Fin its.length → Value}
    {all items : Fin its.length → List Element} (distinct : Function.Injective refs)
    (cursors : ∀ j : Fin its.length, ∃ form, its[j.1]? = some (Value.cursor form (refs j)))
    (ahead : ∀ j, s.heap.Ahead (source j) (refs j) (all j) (items j))
    (kept_its : ∀ it ∈ its, kept it) (kept_source : ∀ j, kept (source j)) :
    Independent kept its (fun j => (items j).map fun e v => v.Shows e) s := by
  have place (j : Fin its.length) : ∃ form, its[j] = Value.cursor form (refs j) := by
    obtain ⟨form, here⟩ := cursors j
    exact ⟨form, (List.getElem_eq_iff j.2).2 here⟩
  -- As many elements have been shown as steps have been taken.
  have later {n : Fin its.length → Nat} {t : Session} (run : Interleaved kept its s n t) :
      ∀ j, t.heap.Ahead (source j) (refs j) (all j) ((items j).drop (n j)) := by
    induction run with
    | start => exact ahead
    | @step n t u found j _ run ih =>
      obtain ⟨form, here⟩ := place j
      obtain ⟨_, _, run', -, rest, moved⟩ := runOn_next_ahead (ih j) form
      rw [here, run'] at run
      obtain ⟨-, rfl⟩ := Prod.mk.inj run
      intro j'
      rw [Function.update_apply]
      split
      · next same =>
        subst same
        rwa [List.tail_drop] at rest
      · next other =>
        refine (ih j').congr (moved.others _ fun same => other (distinct same)) ?_
        exact Heap.elements?_congr moved.contents _
    | other _ spares ih =>
      intro j
      obtain ⟨form, here⟩ := cursors j
      refine (ih j).congr ?_ (Heap.elements?_of_content (spares.content _ (kept_source j)))
      exact Content.cursor.inj (spares.content _ (kept_its _ (List.mem_of_getElem? here)))
  intro n t run j
  obtain ⟨form, here⟩ := place j
  obtain ⟨found, u, next, shows, -⟩ := runOn_next_ahead (later run j) form
  refine ⟨found, u, here ▸ next, ?_⟩
  rw [List.head?_drop] at shows
  rw [List.getElem?_map]
  generalize (items j)[n j]? = item at shows ⊢
  cases shows with
  | none => exact .none
  | some shown => exact .some shown

/-- The iterators are new cursors, one for each sequence, with all its elements ahead. -/
structure OpenedEach (elements : Nat → List Element) (vs : List Value) (s : Session)
    (its : List Value) (t : Session) : Prop where
  length : its.length = vs.length
  contents : t.heap.contents = s.heap.contents
  cursors : s.heap.cursors.Extends t.heap.cursors
  cursor : ∀ j < vs.length, ∃ form, its[j]? = some (.cursor form ⟨s.heap.cursors.size + j⟩)
  ahead : ∀ j x, vs[j]? = some x →
    t.heap.Ahead x ⟨s.heap.cursors.size + j⟩ (elements j) (elements j)

variable {elements : Nat → List Element}

/-- A new cursor for the first sequence, and then those for the others. -/
theorem OpenedEach.cons {u : Session} {form : CursorKind}
    (ahead : s.heap.Ahead x ⟨u.heap.cursors.size⟩ (elements 0) (elements 0))
    (size : s.heap.cursors.size = u.heap.cursors.size + 1)
    (contents : s.heap.contents = u.heap.contents) (cursors : u.heap.cursors.Extends s.heap.cursors)
    (rest : OpenedEach (fun j => elements (j + 1)) vs s its t) :
    OpenedEach elements (x :: vs) u (.cursor form ⟨u.heap.cursors.size⟩ :: its) t where
  length := congrArg (· + 1) rest.length
  contents := rest.contents.trans contents
  cursors := cursors.trans rest.cursors
  cursor j inside := by
    cases j with
    | zero => exact ⟨form, rfl⟩
    | succ j =>
      have place : u.heap.cursors.size + (j + 1) = s.heap.cursors.size + j := by omega
      rw [place]
      exact rest.cursor j (Nat.lt_of_succ_lt_succ inside)
  ahead j y hy := by
    cases j with
    | zero =>
      cases hy
      have inside : u.heap.cursors.size < s.heap.cursors.size := size ▸ Nat.lt_succ_self _
      exact ahead.congr (rest.cursors.2 _ inside) (Heap.elements?_congr rest.contents x)
    | succ j =>
      have place : u.heap.cursors.size + (j + 1) = s.heap.cursors.size + j := by omega
      rw [place]
      exact rest.ahead j y hy

/-- Iterating over sequences one after the other makes a cursor for each. -/
theorem runOn_mapM_iter (holds : ∀ j x, vs[j]? = some x → s.heap.elements? x = some (elements j)) :
    ∃ its t, (vs.mapM iter).runOn s = (.ok its, t) ∧ OpenedEach elements vs s its t := by
  induction vs generalizing s elements with
  | nil => exact ⟨[], s, rfl, ⟨rfl, rfl, .refl _, fun j => nofun, nofun⟩⟩
  | cons x vs ih =>
    obtain ⟨form, c, opens, reads, ahead⟩ := runOn_iter_elements (holds 0 x rfl)
    obtain ⟨u, hu⟩ : ∃ u : Session, u =
        { s with heap := { s.heap with cursors := s.heap.cursors.push c } } := ⟨_, rfl⟩
    have opened : (iter x).runOn s = (.ok (.cursor form ⟨s.heap.cursors.size⟩), u) :=
      opens.trans (hu ▸ rfl)
    have same (y : Value) : u.heap.elements? y = s.heap.elements? y :=
      Heap.elements?_congr (hu ▸ rfl) y
    have place : u.heap.cursor ⟨s.heap.cursors.size⟩ = c := hu ▸ Store.get_push_size ..
    have first : u.heap.Ahead x ⟨s.heap.cursors.size⟩ (elements 0) (elements 0) := by
      refine ⟨(same x).trans (holds 0 x rfl), place ▸ reads, ?_⟩
      rw [place, ← ahead]
      exact Heap.ahead?_congr fun y _ => same y
    have others (j : Nat) (y : Value) (hy : vs[j]? = some y) :
        u.heap.elements? y = some (elements (j + 1)) := (same y).trans (holds (j + 1) y hy)
    obtain ⟨its, t, run, rest⟩ := ih others
    refine ⟨.cursor form ⟨s.heap.cursors.size⟩ :: its, t, ?_, ?_⟩
    · rw [List.mapM_cons, runOn_bind_of_ok opened, runOn_bind_of_ok run]
      rfl
    · exact .cons first (hu ▸ Store.size_push ..) (hu ▸ rfl) (hu ▸ Store.Extends.push ..) rest

/-- Iterators over sequences are independent if they and the sequences are kept. -/
theorem independent_of_elements (opened : (vs.mapM iter).runOn s = (.ok its, t))
    (holds : ∀ j x, vs[j]? = some x → s.heap.elements? x = some (elements j))
    (kept_its : ∀ it ∈ its, kept it) (kept_vs : ∀ x ∈ vs, kept x) :
    Independent kept its (fun j => (elements j.1).map fun e v => v.Shows e) t := by
  obtain ⟨its', t', run, new⟩ := runOn_mapM_iter holds
  obtain ⟨same, rfl⟩ := Prod.mk.inj (run.symm.trans opened)
  obtain rfl := Except.ok.inj same
  have inside (j : Fin its'.length) : j.1 < vs.length := new.length ▸ j.2
  let ref (j : Fin its'.length) : Ref .cursor := ⟨s.heap.cursors.size + j.1⟩
  have distinct : Function.Injective ref := fun i j same =>
    Fin.ext (Nat.add_left_cancel (congrArg Ref.index same))
  have cursors (j : Fin its'.length) : ∃ form, its'[j.1]? = some (Value.cursor form (ref j)) :=
    new.cursor j.1 (inside j)
  have ahead (j : Fin its'.length) :
      t'.heap.Ahead (vs.get ⟨j.1, inside j⟩) (ref j) (elements j.1) (elements j.1) :=
    new.ahead j.1 _ (List.getElem?_eq_getElem (inside j))
  exact independent_of_ahead distinct cursors ahead kept_its fun j => kept_vs _ (List.getElem_mem _)

end ObjectModel
