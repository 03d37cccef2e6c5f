import ObjectModel.Proofs.Walk

/-!
# What only adds

Appending to a list and inserting into a dict add to what a live cursor walks,
and only at its end: a key that is written again keeps its place. So a cursor is
tracked through them, and through the methods that are made of them, although
these iterate their arguments and may step the cursor itself.
-/

namespace ObjectModel

open ObjectModel.Action

namespace Keyed

variable {β : Type}

theorem keys_prefix_insert (t : Keyed β) (k : Key) (v : β) : t.keys <+: (t.insert k v).keys := by
  rw [keys_insert]
  split
  · exact List.prefix_rfl
  · exact List.prefix_append ..

theorem keys_prefix_insertAll (t : Keyed β) (es : List (Key × β)) :
    t.keys <+: (t.insertAll es).keys := by
  induction es generalizing t with
  | nil => exact List.prefix_rfl
  | cons e es ih => exact (t.keys_prefix_insert e.1 e.2).trans (ih _)

end Keyed

namespace Source

variable {src : Source} {form : CursorKind} {r : Ref .cursor}

theorem walked_appendList (src : Source) (h : Heap) (l : Ref .list) (xs : List Value) :
    src.walked h <+: src.walked (h.appendList l xs) := by
  cases src with
  | dict part d => exact List.prefix_rfl
  | list l' =>
    simp only [walked, Heap.list, Heap.appendList, Store.modify_eq, Store.get_set]
    split
    · next same => simp [same]
    · exact List.prefix_rfl

theorem walked_modifyDict (src : Source) (h : Heap) (d : Ref .dict) {f : Table → Table}
    (hf : ∀ t, t.keys <+: (f t).keys) : src.walked h <+: src.walked (h.modifyDict d f) := by
  cases src with
  | list l => exact List.prefix_rfl
  | dict part d' =>
    simp only [walked, Heap.dict, Heap.modifyDict, Store.modify_eq, Store.get_set]
    split
    · next same =>
      rw [same]
      exact (hf _).map _
    · exact List.prefix_rfl

theorem walked_push (src : Source) (h : Heap) (items : Array Value) :
    src.walked h <+: src.walked { h with lists := h.lists.push items } := by
  cases src with
  | dict part d => exact List.prefix_rfl
  | list l =>
    simp only [walked, Heap.list, Store.get_push]
    split
    -- A list that is not there yet is empty.
    · next same =>
      rw [same, Store.get_of_size_le _ (Nat.le_refl _)]
      exact List.nil_prefix
    · exact List.prefix_rfl

-- ---------------------------------------------------------------------------
-- Lists
-- ---------------------------------------------------------------------------

theorem within_newList (items : List Value) : Within (src.Tracked form r) (newList items) :=
  fun s => .grow rfl (src.walked_push s.heap _)

theorem within_appendList (l : Ref .list) (xs : List Value) :
    Within (src.Tracked form r) (appendList l xs) :=
  fun s => .grow rfl (src.walked_appendList s.heap l xs)

theorem within_extendList (l : Ref .list) (v : Value) :
    Within (src.Tracked form r) (extendList l v) := by
  -- The items of anything but a list are iterated, which may step the cursor.
  cases v with
  | list l' => exact .bind (.bind .heap fun _ => .pure _) fun extra => within_appendList l extra
  | _ => exact .bind (.items _) fun extra => within_appendList l extra

theorem within_callList (apply : Function.Apply) (l : Ref .list) {m : Method}
    (hm : m = .append ∨ m = .extend) (a : Arguments) :
    Within (src.Tracked form r) (SequenceMethod.callList apply l m a) := by
  rcases hm with rfl | rfl
  · exact .bind (.lift _) fun _ => .bind (within_appendList l _) fun _ => .pure _
  · exact .bind (.lift _) fun _ => .bind (.forM (within_extendList l) _) fun _ => .pure _

-- ---------------------------------------------------------------------------
-- Dicts
-- ---------------------------------------------------------------------------

theorem within_insert (d : Ref .dict) (k : Key) (v : Value) :
    Within (src.Tracked form r) (modifyDict d (·.insert k v)) :=
  fun s => .grow rfl (src.walked_modifyDict s.heap d fun t => t.keys_prefix_insert k v)

theorem within_putAll (d : Ref .dict) (entries : Table) :
    Within (src.Tracked form r) (DictMethod.putAll d entries) :=
  fun s => .grow rfl (src.walked_modifyDict s.heap d fun t => t.keys_prefix_insertAll _)

theorem within_putPair (d : Ref .dict) (index : Nat) (item : Value) :
    Within (src.Tracked form r) (DictMethod.putPair d index item) :=
  .bind (.pairOf index item) fun _ => .bind (within_insert d _ _) fun _ => .pure _

theorem within_update (d : Ref .dict) (source : Value) :
    Within (src.Tracked form r) (DictMethod.update d source) := by
  cases source with
  | dict d' => exact .bind (.bind .heap fun _ => .pure _) fun t => within_putAll d t
  | _ => exact .bind (.fold (within_putPair d) _ 0) fun _ => .pure _

theorem within_setDefault (d : Ref .dict) (k v : Value) :
    Within (src.Tracked form r) (DictMethod.setDefault d k v) := by
  refine .bind (.lift _) fun key => .bind (.bind .heap fun _ => .pure _) fun t => ?_
  split
  · exact .pure _
  · exact .bind (within_insert d key v) fun _ => .pure _

theorem within_setItem (d : Ref .dict) (k v : Value) :
    Within (src.Tracked form r) (setItem (.dict d) k v) :=
  .bind (.lift _) fun key => within_insert d key v

theorem within_callDict (d : Ref .dict) {m : Method} (hm : m = .setDefault ∨ m = .update)
    (a : Arguments) : Within (src.Tracked form r) (DictMethod.call d m a) := by
  rcases hm with rfl | rfl
  · refine .bind (.lift _) fun _ => ?_
    split
    · exact within_setDefault d _ _
    · exact .throw _
  · exact .bind (.lift _) fun _ => .bind (.forM (within_update d) _) fun _ =>
      .bind (within_putAll d _) fun _ => .pure _

end Source

end ObjectModel
