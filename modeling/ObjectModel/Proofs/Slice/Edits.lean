import ObjectModel.Proofs.Program.InPlace
import ObjectModel.Proofs.Range.Subscript
import ObjectModel.Proofs.Slice.Bound

/-!
# Editing a list

What an edit of a list leaves there is what slices of the list, put together,
make a new list of. An edit by an index that names no place is an `IndexError`.

Main statement: `edits_agree_with_slices`.
-/

namespace ObjectModel

open ObjectModel.Action

-- ---------------------------------------------------------------------------
-- Expressions
-- ---------------------------------------------------------------------------

namespace Action

/-- `v[:i] + v[j:]` -/
def without (v : Value) (i j : Int64) : Action Value := do
  binary .add (← before v i) (← onward v j)

/-- `v[:i] + [x] + v[j:]` -/
def spliced (v : Value) (i : Int64) (x : Value) (j : Int64) : Action Value := do
  binary .add (← binary .add (← before v i) (← newList [x])) (← onward v j)

/-- The action makes a list of these items beside the lists that there are. -/
def MakesList (a : Action Value) (s : Session) (items : List Value) : Prop :=
  ∃ c t, a.runOn s = (.ok (.list c), t) ∧ t.heap.list c = items ∧
    s.heap.lists.size ≤ c.index ∧ c.index < t.heap.lists.size ∧ s.heap.KeepsLists t.heap

variable {a : Action Value} {f : Value → Action Value} {s : Session} {items items' : List Value}
  {l : Ref .list}

theorem makesList_newList (items : List Value) (s : Session) :
    (newList items).MakesList s items := by
  obtain ⟨t, made, holds, grown, keeps⟩ := runOn_newList items s
  exact ⟨_, t, made, holds, Nat.le_refl _, grown ▸ Nat.lt_succ_self _,
    grown ▸ Nat.le_succ _, keeps⟩

theorem MakesList.of_runOn {b : Action Value} {t : Session} (same : a.runOn s = b.runOn t)
    (hb : b.MakesList t items) (kept : t.heap.lists = s.heap.lists) : a.MakesList s items := by
  obtain ⟨c, u, run, holds, new, made, keeps⟩ := hb
  exact ⟨c, u, same.trans run, holds, kept ▸ new, made, (Heap.keepsLists_of_eq kept).trans keeps⟩

/-- Making one list after the other leaves the first as it is. -/
theorem MakesList.bind (ha : a.MakesList s items)
    (hf : ∀ c t, t.heap.list c = items → c.index < t.heap.lists.size →
      s.heap.KeepsLists t.heap → (f (.list c)).MakesList t items') :
    (a >>= f).MakesList s items' := by
  obtain ⟨c, t, run, holds, new, made, keeps⟩ := ha
  obtain ⟨c', u, run', holds', new', made', keeps'⟩ := hf c t holds made keeps
  exact ⟨c', u, (runOn_bind_of_ok run f).trans run', holds', keeps.1.trans new', made',
    keeps.trans keeps'⟩

theorem makesList_add {c d : Ref .list} (hc : s.heap.list c = items) (hd : s.heap.list d = items') :
    (binary .add (.list c) (.list d)).MakesList s (items ++ items') := by
  refine .of_runOn ?_ (makesList_newList (items ++ items') s) rfl
  rw [← hc, ← hd]
  rfl

theorem makesList_before (l : Ref .list) (i : Int64) (s : Session) :
    (before (.list l) i).MakesList s ((Slice.before i).select (s.heap.list l)) := by
  obtain ⟨tag, fresh, bound⟩ := runOn_newInt i s
  have slice : Subscript.toSlice .none (.int tag i) .none = .ok (.before i) := rfl
  refine .of_runOn ?_ (makesList_newList _ (s.reach fresh).tick) rfl
  rw [before, runOn_bind_of_ok bound, runOn_bind_of_ok (runOn_newSlice ..)]
  exact runOn_getItem_list _ slice l

theorem makesList_onward (l : Ref .list) (i : Int64) (s : Session) :
    (onward (.list l) i).MakesList s ((Slice.onward i).select (s.heap.list l)) := by
  obtain ⟨tag, fresh, bound⟩ := runOn_newInt i s
  have slice : Subscript.toSlice (.int tag i) .none .none = .ok (.onward i) := rfl
  refine .of_runOn ?_ (makesList_newList _ (s.reach fresh).tick) rfl
  rw [onward, runOn_bind_of_ok bound, runOn_bind_of_ok (runOn_newSlice ..)]
  exact runOn_getItem_list _ slice l

theorem makesList_turned (l : Ref .list) (s : Session) :
    (turned (.list l)).MakesList s (Slice.turned.select (s.heap.list l)) := by
  have slice : Subscript.toSlice .none .none (.int Tag.shared (-1)) = .ok .turned := rfl
  have bound : (newInt (-1)).runOn s = (.ok (.int Tag.shared (-1)), s) := rfl
  refine .of_runOn ?_ (makesList_newList _ s.tick) rfl
  rw [turned, runOn_bind_of_ok bound, runOn_bind_of_ok (runOn_newSlice ..)]
  exact runOn_getItem_list _ slice l

theorem makesList_without (made : l.index < s.heap.lists.size) (i j : Int64) :
    (without (.list l) i j).MakesList s
      ((Slice.before i).select (s.heap.list l) ++ (Slice.onward j).select (s.heap.list l)) := by
  refine .bind (makesList_before l i s) fun c t hc madeC keepsL => ?_
  have hl := keepsL.2 l made
  refine .bind (makesList_onward l j t) fun d u hd _ keepsC => ?_
  exact makesList_add ((keepsC.2 c madeC).trans hc) (hl ▸ hd)

theorem makesList_spliced (made : l.index < s.heap.lists.size) (i : Int64) (x : Value)
    (j : Int64) : (spliced (.list l) i x j).MakesList s
      ((Slice.before i).select (s.heap.list l) ++ [x] ++
        (Slice.onward j).select (s.heap.list l)) := by
  refine .bind (makesList_before l i s) fun c t hc madeC keeps₁ => ?_
  refine .bind (makesList_newList [x] t) fun d u hd madeD keeps₂ => ?_
  refine .bind (makesList_add ((keeps₂.2 c madeC).trans hc) hd) fun e v he madeE keeps₃ => ?_
  have hl := ((keeps₁.trans keeps₂).trans keeps₃).2 l made
  refine .bind (makesList_onward l j v) fun f w hf _ keeps₄ => ?_
  exact makesList_add ((keeps₄.2 e madeE).trans he) (hl ▸ hf)

end Action

-- ---------------------------------------------------------------------------
-- Edits
-- ---------------------------------------------------------------------------

namespace Action

/-- The edit ends with the answer and leaves these items in the list, which is
all that it has changed. -/
def LeavesList {α : Type} (edit : Action α) (s : Session) (l : Ref .list) (answer : α)
    (items : List Value) : Prop :=
  ∃ t, edit.runOn s = (.ok answer, t) ∧ s.Replaces t (.list l) (.list items)

variable {s : Session} {l : Ref .list} {i : Int64} {p : Nat} {x : Value}

/-- What the edit changes, it may change after a tag has been used. -/
theorem LeavesList.of_runOn {α : Type} {a b : Action α} {answer : α} {items : List Value}
    (hb : b.LeavesList s.tick l answer items) (same : a.runOn s = b.runOn s.tick) :
    a.LeavesList s l answer items := by
  obtain ⟨t, run, replaced⟩ := hb
  exact ⟨t, same.trans run, replaced.content_eq, replaced.others⟩

theorem RaisesIndex.of_runOn {α : Type} {a b : Action α} (hb : b.RaisesIndex s.tick)
    (same : a.runOn s = b.runOn s.tick) : a.RaisesIndex s := by
  obtain ⟨c, fresh, run, kind⟩ := hb
  exact ⟨c, fresh, same.trans run, kind⟩

/-- An action that has to write a list in the end leaves what it writes. -/
theorem leavesList_of_write {α : Type} {a : Action α} {items : List Value} {answer : α}
    (run : a.runOn s = (do writeList l items; return answer : Action α).runOn s) :
    a.LeavesList s l answer items := by
  obtain ⟨t, written, replaced⟩ := runOn_writeList l items s
  exact ⟨t, run.trans (runOn_bind_of_ok written _), replaced⟩

theorem runOn_listSize (l : Ref .list) (s : Session) :
    (listSize l).runOn s = (.ok (s.heap.list l).length, s) :=
  congrArg (fun n => (Except.ok n, s)) (Heap.listSize_eq ..)

theorem runOn_eraseListItem (l : Ref .list) (p : Nat) (s : Session) :
    (eraseListItem l p).runOn s = (writeList l ((s.heap.list l).eraseIdx p)).runOn s :=
  congrArg (fun h => (Except.ok (), { s with heap := h })) (Heap.eraseListItem_eq ..)

theorem runOn_setItem_list (l : Ref .list) (tag : Tag) (i : Int64) (v : Value) (s : Session) :
    (setItem (.list l) (.int tag i) v).runOn s =
      (liftM (Subscript.position "list assignment" i.toInt (s.heap.list l).length) >>= fun p =>
        writeList l ((s.heap.list l).set p v) : Action Unit).runOn s := by
  have index : (liftM (Subscript.ofValue "list" (.int tag i)) : Action Subscript).runOn s =
      (.ok (.index i.toInt), s) := rfl
  simp only [setItem]
  rw [runOn_bind_of_ok index]
  exact runOn_bind_of_ok (runOn_readList l s) _

theorem insertItem_eq (items : List Value) (i : Int64) (v : Value) :
    SequenceMethod.insertItem items i v =
      items.take (clampBound items.length i.toInt) ++ [v] ++
        items.drop (clampBound items.length i.toInt) := by
  have cut {k : Nat} : ∀ {xs : List Value}, k ≤ xs.length →
      xs.insertIdx k v = xs.take k ++ [v] ++ xs.drop k := by
    induction k with
    | zero => intros; rfl
    | succ k ih =>
      rintro (_ | ⟨x, xs⟩) hk
      · cases hk
      · exact congrArg (x :: ·) (ih (Nat.le_of_succ_le_succ hk))
  exact cut (clampBound_le ..)

theorem leavesList_insert (l : Ref .list) (tag : Tag) (i : Int64) (v : Value) (s : Session) :
    (callMethod (.list l) "insert".toList ⟨[.int tag i, v], ∅⟩).LeavesList s l .none
      ((s.heap.list l).take (clampBound (s.heap.list l).length i.toInt) ++ [v] ++
        (s.heap.list l).drop (clampBound (s.heap.list l).length i.toInt)) := by
  rw [← insertItem_eq]
  exact .of_runOn (leavesList_of_write rfl) (runOn_callMethod (m := .insert) rfl rfl ..)

theorem leavesList_reverse (l : Ref .list) (s : Session) :
    (callMethod (.list l) "reverse".toList ⟨[], ∅⟩).LeavesList s l .none
      (s.heap.list l).reverse :=
  .of_runOn (leavesList_of_write rfl) (runOn_callMethod (m := .reverse) rfl rfl ..)

section
variable (named : Subscript.placeOf i.toInt (s.heap.list l).length = p)
  (hx : (s.heap.list l)[p]? = some x)
include named hx

theorem runOn_getItem_place (tag : Tag) : (getItem (.list l) (.int tag i)).runOn s = (.ok x, s) :=
  runOn_lift_of_ok (Subscript.pick_eq_ok named hx "list") s

theorem leavesList_delItem (tag : Tag) :
    (delItem (.list l) (.int tag i)).LeavesList s l ()
      ((s.heap.list l).take p ++ (s.heap.list l).drop (p + 1)) := by
  rw [← List.eraseIdx_eq_take_drop_succ]
  refine leavesList_of_write ?_
  obtain ⟨hp, -⟩ := List.getElem?_eq_some_iff.1 hx
  have place := Subscript.position_eq_ok named hp "list assignment"
  rw [← Heap.listSize_eq] at place
  exact (runOn_bind_of_ok (runOn_lift_of_ok place s) _).trans (runOn_eraseListItem l p s)

theorem leavesList_setItem (tag : Tag) (v : Value) :
    (setItem (.list l) (.int tag i) v).LeavesList s l ()
      ((s.heap.list l).take p ++ [v] ++ (s.heap.list l).drop (p + 1)) := by
  obtain ⟨hp, -⟩ := List.getElem?_eq_some_iff.1 hx
  have place := Subscript.position_eq_ok named hp "list assignment"
  have cut := List.set_eq_take_append_cons_drop (l := s.heap.list l) (i := p) (a := v)
  rw [if_pos hp, List.append_cons] at cut
  rw [← cut]
  refine leavesList_of_write ?_
  rw [runOn_setItem_list, runOn_bind_of_ok (runOn_lift_of_ok place s)]
  rfl

theorem leavesList_pop :
    (SequenceMethod.pop l i).LeavesList s l x
      ((s.heap.list l).take p ++ (s.heap.list l).drop (p + 1)) := by
  rw [← List.eraseIdx_eq_take_drop_succ]
  refine leavesList_of_write ?_
  obtain ⟨hp, -⟩ := List.getElem?_eq_some_iff.1 hx
  have place := Subscript.position_eq_ok named hp "pop"
  have nonempty : (s.heap.list l).length ≠ 0 := Nat.ne_of_gt (Nat.zero_lt_of_lt hp)
  have item : (readListItem? l p).runOn s = (.ok (some x), s) := by
    rw [runOn_readListItem?, Heap.listItem?_eq, hx]
  rw [SequenceMethod.pop, runOn_bind_of_ok (runOn_listSize l s), if_neg nonempty]
  beta_reduce
  rw [runOn_bind_of_ok (runOn_lift_of_ok place s), runOn_bind_of_ok item]
  rw [runOn_bind, runOn_eraseListItem]
  rfl

end

section
variable (outside : ¬ Subscript.InRange i.toInt (s.heap.list l).length)
include outside

theorem raisesIndex_pop : (SequenceMethod.pop l i).RaisesIndex s := by
  rw [RaisesIndex, SequenceMethod.pop, runOn_bind_of_ok (runOn_listSize l s)]
  by_cases empty : (s.heap.list l).length = 0
  · rw [if_pos empty]
    exact ⟨.popFromEmptyList, s.heap.fresh, rfl, rfl⟩
  · have missing := runOn_lift_of_error (Subscript.position_eq_error "pop" outside) s
    rw [if_neg empty]
    beta_reduce
    rw [runOn_bind_of_error missing]
    exact ⟨_, s.heap.fresh, rfl, rfl⟩

theorem raisesIndex_delItem (tag : Tag) : (delItem (.list l) (.int tag i)).RaisesIndex s := by
  have missing := Subscript.position_eq_error "list assignment" outside
  rw [← Heap.listSize_eq] at missing
  exact ⟨_, s.heap.fresh, runOn_bind_of_error (runOn_lift_of_error missing s) _, rfl⟩

theorem raisesIndex_setItem (tag : Tag) (v : Value) :
    (setItem (.list l) (.int tag i) v).RaisesIndex s := by
  have missing := runOn_lift_of_error (Subscript.position_eq_error "list assignment" outside) s
  rw [RaisesIndex, runOn_setItem_list, runOn_bind_of_error missing]
  exact ⟨_, s.heap.fresh, rfl, rfl⟩

end

/-- An insertion, a deletion, an assignment and a reversal leave in the list what
its slices make. An index that names no place changes nothing. -/
theorem edits_agree_with_slices (made : l.index < s.heap.lists.size) (tag : Tag) (i : Int64)
    (v : Value) :
    let old := s.heap.list l
    let pop := callMethod (.list l) "pop".toList ⟨[.int tag i], ∅⟩
    let delete := delItem (.list l) (.int tag i)
    let assign := setItem (.list l) (.int tag i) v
    (∃ new, (callMethod (.list l) "insert".toList ⟨[.int tag i, v], ∅⟩).LeavesList s l .none new ∧
      (spliced (.list l) i v i).MakesList s new) ∧
    (Subscript.InRange i.toInt old.length → ∃ (p : Nat) (x : Value),
      Subscript.placeOf i.toInt old.length = p ∧ old[p]? = some x ∧
      pop.LeavesList s l x (old.take p ++ old.drop (p + 1)) ∧
      delete.LeavesList s l () (old.take p ++ old.drop (p + 1)) ∧
      assign.LeavesList s l () (old.take p ++ [v] ++ old.drop (p + 1)) ∧
      ∀ (j k : Int64) (tag' : Tag), j.toInt = p → k.toInt = p + 1 →
        (getItem (.list l) (.int tag' j)).runOn s = (.ok x, s) ∧
        (without (.list l) j k).MakesList s (old.take p ++ old.drop (p + 1)) ∧
        (spliced (.list l) j v k).MakesList s (old.take p ++ [v] ++ old.drop (p + 1))) ∧
    (¬ Subscript.InRange i.toInt old.length →
      pop.RaisesIndex s ∧ delete.RaisesIndex s ∧ assign.RaisesIndex s) ∧
    ∃ new, (callMethod (.list l) "reverse".toList ⟨[], ∅⟩).LeavesList s l .none new ∧
      (turned (.list l)).MakesList s new := by
  intro old pop delete assign
  have popped : pop.runOn s = (SequenceMethod.pop l i).runOn s.tick :=
    runOn_callMethod (m := .pop) rfl rfl ..
  refine ⟨⟨_, leavesList_insert l tag i v s, ?_⟩, fun inside => ?_, fun outside => ?_,
    ⟨_, leavesList_reverse l s, ?_⟩⟩
  · have slices := makesList_spliced made i v i
    rwa [Slice.select_before, Slice.select_onward] at slices
  · obtain ⟨p, named, hp⟩ := inside.exists_place
    have hx : old[p]? = some old[p] := List.getElem?_eq_getElem hp
    refine ⟨p, old[p], named, hx, .of_runOn (leavesList_pop named hx) popped,
      leavesList_delItem named hx tag, leavesList_setItem named hx tag v, fun j k tag' hj hk => ?_⟩
    have placed : Subscript.placeOf j.toInt old.length = p := by
      rw [hj]
      exact if_neg (by omega)
    have bound : clampBound old.length j.toInt = p := hj ▸ clampBound_natCast hp.le
    have bound' : clampBound old.length k.toInt = p + 1 := by
      rw [hk]
      exact clampBound_natCast hp
    have cut := makesList_without made j k
    have spliced := makesList_spliced made j v k
    rw [Slice.select_before, Slice.select_onward, bound, bound'] at cut spliced
    exact ⟨runOn_getItem_place placed hx tag', cut, spliced⟩
  · exact ⟨.of_runOn (raisesIndex_pop outside) popped, raisesIndex_delItem outside tag,
      raisesIndex_setItem outside tag v⟩
  · have slices := makesList_turned l s
    rwa [Slice.select_turned] at slices

/-- With `l = [None, True]`, `l.pop(-1)` is `True` and leaves `l[:1] + l[2:]`, and there
is no `l.pop(2)`. -/
theorem edits_agree_with_slices_of_two :
    let s := ((newList [.none, .bool true]).runOn (.start [] false)).2
    0 < s.heap.lists.size ∧
    (callMethod (.list ⟨0⟩) "pop".toList ⟨[.int 0 (-1)], ∅⟩).LeavesList s ⟨0⟩ (.bool true) [.none] ∧
    (without (.list ⟨0⟩) 1 2).MakesList s [.none] ∧
    (callMethod (.list ⟨0⟩) "pop".toList ⟨[.int 0 2], ∅⟩).RaisesIndex s := by
  intro s
  have made : 0 < s.heap.lists.size := by decide
  obtain ⟨-, last, -, -⟩ := edits_agree_with_slices (l := ⟨0⟩) made 0 (-1) .none
  obtain ⟨-, -, past, -⟩ := edits_agree_with_slices (l := ⟨0⟩) made 0 2 .none
  obtain ⟨p, x, place, item, popped, -, -, slices⟩ := last ⟨by decide, by decide⟩
  obtain rfl : 1 = p := Int.natCast_inj.1 place
  cases item
  obtain ⟨-, cut, -⟩ := slices 1 2 0 rfl rfl
  exact ⟨made, popped, cut, (past fun inside => absurd inside.2 (by decide)).1⟩

end Action

end ObjectModel
