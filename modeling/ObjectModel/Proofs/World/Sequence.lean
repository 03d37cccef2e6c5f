import Mathlib.Data.List.InsertIdx
import ObjectModel.Proofs.Sorting.Rearrangement
import ObjectModel.Proofs.World.Method

/-!
# Methods of lists and tuples are safe

Sorting rearranges, and its comparisons fail without a value. A key function has
to be safe itself.

Main statements: `safe_callTuple`, `safe_callList` and `safe_sorted`.
-/

namespace ObjectModel

open ObjectModel.Action World

/-- Calling a key function is safe in every world. -/
def SafelyApplied (apply : Value → Value → Action Value) : Prop :=
  ∀ ⦃w : World⦄ ⦃f v : Value⦄, w.Has f → w.Has v → w.Safe (apply f v)

namespace Sorting

variable {w : World} {h : Heap}

theorem has_sortValues {xs : List Value} (has : w.Has xs) (reverse : Bool) :
    w.Has (sortValues h reverse xs).1 := fun v hv =>
  has v ((sort_perm _ true reverse xs).mem_iff.1 hv)

theorem isPlain_of_sortValues {reverse : Bool} {xs : List Value} {f : Fault}
    (hf : (sortValues h reverse xs).2 = some f) : f.isPlain = true :=
  blame_of_sort (fun _ _ _ => Heap.isPlain_of_compare) rfl hf

theorem has_sortScored {xs : List (Value × Value)} (has : w.Has (xs.map (·.2))) (reverse : Bool) :
    w.Has ((sortScored h reverse xs).1.map (·.2)) := fun v hv =>
  has v (((sort_perm _ false reverse xs).map (·.2)).mem_iff.1 hv)

theorem isPlain_of_sortScored {reverse : Bool} {xs : List (Value × Value)} {f : Fault}
    (hf : (sortScored h reverse xs).2 = some f) : f.isPlain = true :=
  blame_of_sort (fun _ _ _ => Heap.isPlain_of_compare) rfl hf

end Sorting

namespace SequenceMethod

variable {w : World} {a : Arguments} {apply : Value → Value → Action Value}

theorem safe_index (items : List Value) (k : Kind) (a : Arguments) :
    w.Safe (SequenceMethod.index items k a) := by
  refine .lift_bind fun _ _ => ?_
  split
  · refine .lift_bind fun start _ => .lift_bind fun stop _ => .heap_bind fun h _ => ?_
    split
    · exact .newInt _
    · exact .fail
  · exact .fail

theorem safe_count (items : List Value) (a : Arguments) :
    w.Safe (SequenceMethod.count items a) := by
  refine .lift_bind fun _ _ => ?_
  split
  · exact .heap_bind fun _ _ => .newInt _
  · exact .fail

theorem safe_callTuple (items : List Value) (m : Method) (a : Arguments) :
    w.Safe (callTuple items m a) := by
  cases m with
  | count => exact safe_count items a
  | index => exact safe_index items .tuple a
  | _ => exact .unimplemented

theorem keeps_sortOptions (name : String) (ha : w.Has a) : w.Keeps (sortOptions name a) := by
  have key := Arguments.has_unlessNone (Arguments.has_keyword? ha "key")
  refine .lift_bind fun _ _ => ?_
  split
  · exact .bind (.truth _) fun _ _ => .pure ⟨key, trivial⟩
  · exact .pure ⟨key, trivial⟩

theorem safe_scores (hap : SafelyApplied apply) {key : Value} (hk : w.Has key)
    {items : List Value} (has : w.Has items) : w.Safe (scores apply key items) := by
  induction items generalizing w with
  | nil => exact .pure has_nil
  | cons v vs ih =>
    obtain ⟨hv, has⟩ := List.forall_mem_cons.1 has
    refine .bind (hap hk hv) fun w' score le hs => ?_
    refine .bind (ih (hk.mono le) (World.Has.mono has le)) fun w'' rest le' hr => .pure ?_
    exact has_cons ⟨hs.mono le', hv.mono (le_trans le le')⟩ hr

theorem safe_sortedBy (hap : SafelyApplied apply) {key : Value} (hk : w.Has key)
    (reverse : Bool) {items : List Value} (has : w.Has items) :
    w.Safe (sortedBy apply key reverse items) := by
  refine .bind (safe_scores hap hk has) fun w' scored _ hs => .heap_bind fun h _ => ?_
  have values : w'.Has (scored.map (·.2)) := fun v hv => by
    obtain ⟨entry, he, rfl⟩ := List.mem_map.1 hv
    exact (hs entry he).2
  split
  · next sorted he =>
    have sorted := Sorting.has_sortScored (h := h) values reverse
    rw [he] at sorted
    exact .pure sorted
  · next he => exact .throw (has_of_isPlain (Sorting.isPlain_of_sortScored (congrArg Prod.snd he)))

theorem safe_sorted (hap : SafelyApplied apply) {key : Option Value} (hk : w.Has key)
    (reverse : Bool) {items : List Value} (has : w.Has items) :
    w.Safe (sorted apply key reverse items) := by
  cases key with
  | some f => exact safe_sortedBy hap (hk f rfl) reverse has
  | none =>
    refine .heap_bind fun h _ => ?_
    split
    · next he =>
      have sorted := Sorting.has_sortValues (h := h) has reverse
      rw [he] at sorted
      exact .pure sorted
    · next he =>
      exact .throw (has_of_isPlain (Sorting.isPlain_of_sortValues (congrArg Prod.snd he)))

theorem keeps_sortInPlace {r : Ref .list} (hr : w.Has (Value.list r)) (reverse : Bool) :
    w.Keeps (sortInPlace r reverse) := by
  refine .bind (.readList r) fun items has => .bind (.writeList hr has_nil) fun _ _ => ?_
  refine .heap_bind fun h _ => ?_
  have sorted := Sorting.has_sortValues (h := h) has reverse
  generalize he : Sorting.sortValues h reverse items = outcome at sorted
  obtain ⟨items, failure⟩ := outcome
  refine .bind (.writeList hr sorted) fun _ _ => ?_
  cases failure with
  | none => exact .pure trivial
  | some f => exact .throw (has_of_isPlain (Sorting.isPlain_of_sortValues (congrArg Prod.snd he)))

theorem safe_sort (hap : SafelyApplied apply) {r : Ref .list} (hr : w.Has (Value.list r))
    (ha : w.Has a) : w.Safe (sort apply r a) := by
  refine (keeps_sortOptions "sort" ha).and_then fun (key, reverse) hk => ?_
  dsimp only
  split
  · exact .fail_bind
  · cases key with
    | none => exact (keeps_sortInPlace hr reverse).and_then fun _ _ => .pure (w.shared rfl)
    | some f =>
      refine (Keeps.readList r).and_then fun items has => ?_
      refine .bind (safe_sortedBy hap (hk.1 f rfl) reverse has) fun w' sorted le hs => ?_
      exact (Keeps.writeList (hr.mono le) hs).and_then fun _ _ => .pure (w'.shared rfl)

theorem safe_pop {r : Ref .list} (hr : w.Has (Value.list r)) (i : Int64) : w.Safe (pop r i) := by
  refine (Keeps.listSize r).and_then fun size _ => ?_
  dsimp only
  split
  · exact .fail_bind
  · refine .lift_bind fun position _ => (Keeps.readListItem? r position).and_then fun found hv => ?_
    cases found with
    | none => exact .fail
    | some v => exact (Keeps.eraseListItem hr position).and_then fun _ _ => .pure (hv v rfl)

theorem keeps_remove {r : Ref .list} (hr : w.Has (Value.list r)) (v : Value) :
    w.Keeps (remove r v) := by
  refine .heap_bind fun h _ => ?_
  split
  · exact .eraseListItem hr _
  · exact .fail

theorem safe_callList (hap : SafelyApplied apply) {r : Ref .list} (hr : w.Has (Value.list r))
    (m : Method) (ha : w.Has a) : w.Safe (callList apply r m a) := by
  have write {items : List Value} (has : w.Has items) :
      w.Safe (do Action.writeList r items; return Value.none) :=
    (Keeps.writeList hr has).and_then fun _ _ => .pure (w.shared rfl)
  cases m with
  | append =>
    refine .lift_bind fun _ _ => ?_
    exact (Keeps.appendList hr ha.1).and_then fun _ _ => .pure (w.shared rfl)
  | extend =>
    refine .lift_bind fun _ _ => ?_
    refine .bind (.forM ha.1 fun w' v le hv => .extendList (hr.mono le) hv) fun w' _ _ _ => ?_
    exact .pure (w'.shared rfl)
  | clear => exact .lift_bind fun _ _ => write has_nil
  | count => exact (Keeps.readList r).and_then fun items _ => safe_count items a
  | index => exact (Keeps.readList r).and_then fun items _ => safe_index items .list a
  | pop => exact .lift_bind fun _ _ => .lift_bind fun _ _ => safe_pop hr _
  | insert =>
    refine .lift_bind fun _ _ => .lift_bind fun position _ => ?_
    split
    · next v hv _ =>
      refine (Keeps.readList r).and_then fun items has => write fun x hx => ?_
      rcases List.eq_or_mem_of_mem_insertIdx hx with rfl | hx
      · exact Arguments.has_at? ha 1 _ hv
      · exact has x hx
    · exact .fail
  | remove =>
    refine .lift_bind fun _ _ => ?_
    refine .bind (.forM ha.1 fun w' v le _ => (keeps_remove (hr.mono le) v).safe) fun w' _ _ _ => ?_
    exact .pure (w'.shared rfl)
  | reverse =>
    refine .lift_bind fun _ _ => (Keeps.readList r).and_then fun items has => write fun x hx => ?_
    exact has x (List.mem_reverse.1 hx)
  | sort => exact safe_sort hap hr ha
  | copy => exact .lift_bind fun _ _ => (Keeps.readList r).and_then fun _ has => .newList has
  | _ => exact .unimplemented

end SequenceMethod

end ObjectModel
