import ObjectModel.Proofs.Live
import Mathlib.Data.List.Forall2

/-!
# What iterators yield

An iterator yields a list if it gives the items of the list one after the other
and then nothing more, whatever is done between two steps to anything but the
iterator itself. Making a list of an iterable collects what it yields, and of a
list, all its items.

Main statements: `runOn_items` and `runOn_items_list`.
-/

namespace ObjectModel

open ObjectModel.Action

/-- A cursor gives values that show the items of a list, one after the other,
and is then exhausted. Between two steps only its place has to stay as it is. -/
def Yields {α : Type} (shows : Value → α → Prop) (form : CursorKind) (r : Ref .cursor) :
    List α → Session → Prop
  | [], s => (next (.cursor form r)).runOn s = (.ok none, s)
  | x :: xs, s => ∃ v s', (next (.cursor form r)).runOn s = (.ok (some v), s') ∧ shows v x ∧
    ∀ s'', s''.heap.cursor r = s'.heap.cursor r → Yields shows form r xs s''

variable {α : Type} {shows : Value → α → Prop} {form : CursorKind} {r : Ref .cursor}
  {s s' : Session} {v it : Value} {xs : List α}

theorem runOn_next (form : CursorKind) (r : Ref .cursor) (s : Session) :
    (next (.cursor form r)).runOn s =
      (advanceCursor (advance s.heap.cursors.size) r).runOn s := by
  rw [next, runOn_bind, runOn_heap]
  simp only [advance]

theorem runOn_newCursor (form : CursorKind) (c : Cursor) (s : Session) :
    ∃ r s', (newCursor form c).runOn s = (.ok (.cursor form r), s') ∧ s'.heap.cursor r = c :=
  ⟨⟨s.heap.cursors.size⟩, _, rfl, Store.get_push_size ..⟩

-- ---------------------------------------------------------------------------
-- Collecting
-- ---------------------------------------------------------------------------

theorem runOn_collectOne (acc : List Value) (v : Value) (s : Session) :
    (collect acc v).runOn s = (.ok (.yield (v :: acc)), s) := rfl

theorem runOn_collect (h : Yields shows form r xs s) {budget : Nat} (hb : xs.length < budget)
    (acc : List Value) : ∃ vs s', (foldFrom collect budget (.cursor form r) acc).runOn s =
      (.ok (vs.reverse ++ acc), s') ∧ List.Forall₂ shows vs xs := by
  induction xs generalizing s budget acc with
  | nil =>
    cases budget with
    | zero => cases hb
    | succ budget =>
      refine ⟨[], s, ?_, .nil⟩
      rw [foldFrom, runOn_bind_of_ok h]
      rfl
  | cons x xs ih =>
    obtain ⟨v, s', run, hv, rest⟩ := h
    cases budget with
    | zero => cases hb
    | succ budget =>
      obtain ⟨vs, s'', run', hvs⟩ := ih (rest s' rfl) (Nat.lt_of_succ_lt_succ hb) (v :: acc)
      refine ⟨v :: vs, s'', ?_, .cons hv hvs⟩
      rw [foldFrom, runOn_bind_of_ok run]
      refine (runOn_bind_of_ok (runOn_collectOne acc v s') _).trans ?_
      rw [run', List.reverse_cons, List.append_assoc, List.singleton_append]

theorem runOn_fold {σ : Type} {step : σ → Value → Action (ForInStep σ)}
    (h : (iter v).runOn s = (.ok it, s')) (acc : σ) :
    (fold step v acc).runOn s = (foldFrom step (s'.heap.patience it) it acc).runOn s' := by
  rw [fold, runOn_bind_of_ok h, runOn_bind_of_ok (runOn_heap s')]

/-- The items of an iterable are what its iterator yields. -/
theorem runOn_items (opened : (iter v).runOn s = (.ok (.cursor form r), s'))
    (h : Yields shows form r xs s') (hb : xs.length < s'.heap.patience (.cursor form r)) :
    ∃ vs s'', (items v).runOn s = (.ok vs, s'') ∧ List.Forall₂ shows vs xs := by
  obtain ⟨vs, s'', run, hvs⟩ := runOn_collect h hb []
  refine ⟨vs, s'', ?_, hvs⟩
  rw [items, runOn_bind_of_ok ((runOn_fold opened []).trans run)]
  rw [List.append_nil, List.reverse_reverse, runOn_pure]

-- ---------------------------------------------------------------------------
-- Lists
-- ---------------------------------------------------------------------------

/-- The session with other cursors. -/
def Session.withCursors (s : Session) (cursors : Store Cursor) : Session :=
  { s with heap := { s.heap with cursors } }

section
variable {σ : Type} {step : σ → Value → Action (ForInStep σ)} {f : σ → Value → σ} {l : Ref .list}

/-- What is left of a list is fed to a step that only computes, by moving a cursor. -/
theorem runOn_foldFrom_list {n budget : Nat} (hc : s.heap.cursor r = .list l n false)
    (hb : (s.heap.list l).length - n < budget)
    (hstep : ∀ v ∈ s.heap.list l, ∀ acc t, (step acc v).runOn t = (.ok (.yield (f acc v)), t))
    (acc : σ) : ∃ cursors, (foldFrom step budget (.cursor form r) acc).runOn s =
      (.ok (((s.heap.list l).drop n).foldl f acc), s.withCursors cursors) := by
  induction budget generalizing s n acc with
  | zero => cases hb
  | succ budget ih =>
    rw [foldFrom]
    cases item : (s.heap.list l)[n]? with
    | none =>
      have ended : (next (.cursor form r)).runOn s =
          (.ok none, s.place r ((Source.list l).cursor n true)) := by
        rw [runOn_next]
        exact runOn_live_none hc item
      rw [runOn_bind_of_ok ended, List.drop_eq_nil_of_le (List.getElem?_eq_none_iff.1 item)]
      exact ⟨_, rfl⟩
    | some v =>
      have shown : (next (.cursor form r)).runOn s =
          (.ok (some v), s.place r (.list l (n + 1) false)) := by
        rw [runOn_next]
        exact runOn_list_some hc item
      obtain ⟨more, rfl⟩ := List.getElem?_eq_some_iff.1 item
      have less : (s.heap.list l).length - (n + 1) < budget := by omega
      obtain ⟨cursors, run⟩ := ih (s := s.place r (.list l (n + 1) false)) (n := n + 1)
        (Heap.cursor_putCursor ..) less hstep (f acc (s.heap.list l)[n])
      refine ⟨cursors, ?_⟩
      rw [runOn_bind_of_ok shown, List.drop_eq_getElem_cons more]
      exact (runOn_bind_of_ok (hstep _ (List.getElem_mem more) acc _) _).trans run

/-- Feeding the items of a list to a step that only computes changes nothing but cursors. -/
theorem runOn_fold_list
    (hstep : ∀ v ∈ s.heap.list l, ∀ acc t, (step acc v).runOn t = (.ok (.yield (f acc v)), t))
    (acc : σ) : ∃ cursors, (fold step (.list l) acc).runOn s =
      (.ok ((s.heap.list l).foldl f acc), s.withCursors cursors) := by
  obtain ⟨opened, ho⟩ : ∃ t, t = s.withCursors (s.heap.cursors.push (.list l 0 false)) := ⟨_, rfl⟩
  have run : (iter (.list l)).runOn s = (.ok (.cursor .list ⟨s.heap.cursors.size⟩), opened) :=
    ho ▸ rfl
  have start : opened.heap.cursor ⟨s.heap.cursors.size⟩ = .list l 0 false :=
    ho ▸ Store.get_push_size ..
  have same : opened.heap.list l = s.heap.list l := ho ▸ rfl
  have patient : (opened.heap.list l).length - 0 <
      opened.heap.patience (.cursor .list ⟨s.heap.cursors.size⟩) := by
    rw [Heap.patience, Heap.remaining, start]
    exact Nat.lt_add_of_pos_right (by decide)
  obtain ⟨cursors, folded⟩ := runOn_foldFrom_list start patient (same ▸ hstep) acc
  refine ⟨cursors, (runOn_fold run acc).trans (folded.trans ?_)⟩
  rw [same, ho]
  rfl

end

/-- Reading the items of a list changes nothing but cursors. -/
theorem runOn_items_list (l : Ref .list) (s : Session) :
    ∃ cursors, (items (.list l)).runOn s = (.ok (s.heap.list l), s.withCursors cursors) := by
  obtain ⟨cursors, collected⟩ := runOn_fold_list (s := s) (l := l)
    (fun v _ acc t => runOn_collectOne acc v t) []
  refine ⟨cursors, ?_⟩
  rw [items, runOn_bind_of_ok collected, List.foldl_flip_cons_eq_append', List.append_nil,
    List.reverse_reverse, runOn_pure]

end ObjectModel
