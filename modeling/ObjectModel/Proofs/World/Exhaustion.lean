import ObjectModel.Proofs.Iterator.Step
import ObjectModel.Proofs.World.Iteration

/-!
# Exhausted iterators

A step that yields nothing leaves the iterator spent: at the end of its own walk
or, if it counts the items of another, with that one spent. A spent iterator
yields nothing and is left as it is, and it stays spent in every later heap,
whatever its source holds by then.

Main statements: `spent_of_advance`, `Spent.advance` and `spent_later`.
-/

namespace ObjectModel

open ObjectModel.Action

/-- An iterator steps itself and the iterators that it reads. -/
inductive Heap.Steps (h : Heap) (it : Value) : Value → Prop
  | self : Steps h it it
  | zip {form : CursorKind} {r : Ref .cursor} {inputs : List Value} {done : Bool} {v : Value} :
    Steps h it (.cursor form r) → h.cursor r = .zip inputs done → v ∈ inputs → Steps h it v
  | enumerate {form : CursorKind} {r : Ref .cursor} {input : Value} {counter : Option Int64} :
    Steps h it (.cursor form r) → h.cursor r = .enumerate input counter → Steps h it input

theorem Heap.Steps.trans {h : Heap} {u v w : Value} (first : h.Steps u v) (second : h.Steps v w) :
    h.Steps u w := by
  induction second with
  | self => exact first
  | zip _ hc hv ih => exact .zip ih hc hv
  | enumerate _ hc ih => exact .enumerate ih hc

/-- The iterator has come to an end that fewer steps than `depth` deep show. -/
inductive Heap.Spent (h : Heap) : Nat → Value → Prop
  | finished {depth : Nat} {form : CursorKind} {r : Ref .cursor} :
    (h.cursor r).isOver = true → Spent h (depth + 1) (.cursor form r)
  | counted {depth : Nat} {form : CursorKind} {r : Ref .cursor} {input : Value}
    {counter : Option Int64} : h.cursor r = .enumerate input counter → Spent h depth input →
    Spent h (depth + 1) (.cursor form r)

variable {s s' : Session} {r : Ref .cursor} {next : Value → Action (Option Value)}

-- ---------------------------------------------------------------------------
-- One step
-- ---------------------------------------------------------------------------

/-- A cursor that has yielded nothing is at its end, or the iterator whose items
it counts has yielded nothing. -/
theorem isOver_or_of_advanceCursor (h : (advanceCursor next r).runOn s = (.ok none, s')) :
    (s'.heap.cursor r).isOver = true ∨
      ∃ input counter, s.heap.cursor r = .enumerate input counter ∧
        (next input).runOn s = (.ok none, s') := by
  have stepped := stepped_advanceCursor next r s
  rw [h] at stepped
  cases stepped with
  | finished finished => exact .inl finished
  | ended _ _ finished => exact .inl (by rwa [Session.place, Heap.cursor_putCursor])
  | rowEnded => exact .inl (by rw [Session.place, Heap.cursor_putCursor]; rfl)
  | itemEnded hc item => exact .inr ⟨_, _, hc, item⟩

/-- A spent iterator yields nothing and is left as it is. -/
theorem Heap.Spent.advance {depth depth' : Nat} {it : Value} (h : s.heap.Spent depth it)
    (le : depth ≤ depth') : (advance depth' it).runOn s = (.ok none, s) := by
  induction h generalizing depth' with
  | finished finished =>
    obtain ⟨n, rfl⟩ := Nat.exists_eq_add_one_of_ne_zero (Nat.ne_zero_of_lt le)
    exact runOn_advanceCursor_of_isOver finished
  | counted hc _ ih =>
    obtain ⟨n, rfl⟩ := Nat.exists_eq_add_one_of_ne_zero (Nat.ne_zero_of_lt le)
    rw [Action.advance, advanceCursor, runOn_bind_of_ok (runOn_readCursor ..), hc]
    exact runOn_bind_of_ok (ih (Nat.le_of_succ_le_succ le)) _

-- ---------------------------------------------------------------------------
-- Later heaps
-- ---------------------------------------------------------------------------

/-- The world remembers where the cursors of the heap are. -/
def World.mark (w : World) (h : Heap) : World := { w with
  seen := fun r c => r.index < w.extent .cursor ∧ c = h.cursor r
  seen_lt := And.left }

namespace World

variable {w w' : World} {h h' : Heap}

theorem Models.mark (models : w.Models h) : (w.mark h).Models h where
  fresh := models.fresh
  extent := models.extent
  list := models.list
  dict := models.dict
  set := models.set
  cursor := models.cursor
  moved r := ⟨fun c seen => by rw [seen.2], (models.moved r).ordered⟩

/-- A cursor that was there has come to where it is from where it was. -/
theorem leads_of_mark (le : w.mark h ≤ w') (models' : w'.Models h')
    {form : CursorKind} {r : Ref .cursor} (has : w.Has (Value.cursor form r)) :
    (h.cursor r).Leads (h'.cursor r) := by
  refine (models'.moved r).leads _ ?_
  rw [le.2]
  exact ⟨w.index_lt has rfl, rfl⟩

theorem size_le_of_mark (models : w.Models h) (le : w.mark h ≤ w') (models' : w'.Models h') :
    h.cursors.size ≤ h'.cursors.size := by
  have size : h.cursors.size = w.extent .cursor := models.extent .cursor
  have size' : h'.cursors.size = w'.extent .cursor := models'.extent .cursor
  rw [size, size']
  -- The last of them, if there is one, is still in its place.
  cases extent : w.extent .cursor with
  | zero => exact Nat.zero_le _
  | succ n =>
    have seen : (w.mark h).seen ⟨n⟩ (h.cursor ⟨n⟩) := ⟨extent ▸ Nat.lt_succ_self n, rfl⟩
    exact w'.seen_lt (le.2 ▸ seen)

/-- What is spent stays spent. -/
theorem spent_later (models : w.Models h) (le : w.mark h ≤ w') (models' : w'.Models h')
    {depth : Nat} {it : Value} (has : w.Has it) (spent : h.Spent depth it) :
    h'.Spent depth it := by
  induction spent with
  | finished finished =>
    have same := (leads_of_mark le models' has).eq_of_isOver finished
    exact .finished (same ▸ finished)
  | @counted _ _ r _ _ hc _ ih =>
    have leads := leads_of_mark le models' has
    rw [hc] at leads
    obtain ⟨counter', hc'⟩ := leads.enumerate
    have input := models.cursor r
    rw [hc] at input
    exact .counted hc' (ih (List.forall_mem_singleton.1 input))

/-- An iterator that has yielded nothing is spent. -/
theorem spent_of_advance {depth : Nat} {it : Value} (models : w.Models s.heap) (has : w.Has it)
    (plain : ∀ mode f, ¬ s.heap.Steps it (.file mode f))
    (ended : (advance depth it).runOn s = (.ok none, s')) : s'.heap.Spent depth it := by
  induction depth generalizing it with
  | zero => cases ended
  | succ depth ih =>
    cases it with
    | cursor form r =>
      rcases isOver_or_of_advanceCursor ended with finished | ⟨input, counter, hc, ended'⟩
      · exact .finished finished
      · have hasInput : w.Has input := by
          have parts := models.cursor r
          rw [hc] at parts
          exact List.forall_mem_singleton.1 parts
        have first : s.heap.Steps (.cursor form r) input := .enumerate .self hc
        have spent := ih hasInput (fun mode f steps => plain mode f (first.trans steps)) ended'
        have marked : (w.mark s.heap).Has input := hasInput
        obtain ⟨w', le, models', -⟩ := Safe.advance depth marked s models.mark
        rw [ended'] at models'
        have leads := leads_of_mark le models' has
        rw [hc] at leads
        obtain ⟨counter', hc'⟩ := leads.enumerate
        exact .counted hc' spent
    | file mode f => exact absurd .self (plain mode f)
    | _ => cases ended

end World

end ObjectModel
