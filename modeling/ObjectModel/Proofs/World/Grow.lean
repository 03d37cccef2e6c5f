import ObjectModel.Proofs.World.Basic

/-!
# Growing worlds

A world grows by an object whose identity is new: one under the next tag, or
one that refers to a new cell of a store. Writing to a cell that is there
leaves the world as it is.

Main statements: `Models.add`, and `Models.newList`, `Models.putList` with
their siblings.
-/

namespace ObjectModel

namespace World

/-- The world in which nothing has been made. -/
def start : World where
  objects := { v | v.isShared }
  fresh := Tag.shared + 1
  extent _ := 0
  seen _ _ := False
  shared h := h
  interned h := Value.interned_of_isShared h
  parts {v u} hv hu := by
    cases v with
    | tuple tag items =>
      cases List.isEmpty_iff.1 (Bool.and_eq_true_iff.1 hv).2
      cases hu
    | slice | view | method | error => cases hv
    | _ => cases hu
  fresh_pos := Nat.lt_succ_self _
  tag_lt {v tag} hv ht := by
    have holder := Value.holder?_identity hv
    rw [ht] at holder
    cases holder
  index_lt {v shelf i} hv hi := by
    have holder := Value.holder?_identity hv
    rw [hi] at holder
    cases holder
  unique hu hv h := Value.eq_of_isShared hu hv h
  seen_lt h := h.elim

/-- Adds an object whose identity is new. -/
def extend (w : World) (v : Value) (fresh : Tag) (extent : Shelf → Nat) (has : w.Has v.parts)
    (interned : v.Interned) (fresh_le : w.fresh ≤ fresh)
    (extent_le : ∀ shelf, w.extent shelf ≤ extent shelf)
    (new : ∀ {u : Value}, u ∈ w.objects → u.identity ≠ v.identity)
    (tagged : ∀ tag, v.identity = .tagged tag → tag < fresh)
    (stored : ∀ shelf i, v.identity = .stored shelf i → i < extent shelf) :
    World where
  objects := insert v w.objects
  fresh := fresh
  extent := extent
  seen := w.seen
  shared h := .inr (w.shared h)
  interned {u} hu := by
    rcases hu with rfl | hu
    · exact interned
    · exact w.interned hu
  parts {u x} hu hx := by
    rcases hu with rfl | hu
    · exact .inr (has x hx)
    · exact .inr (w.parts hu hx)
  fresh_pos := w.fresh_pos.trans_le fresh_le
  tag_lt {u tag} hu ht := by
    rcases hu with rfl | hu
    · exact tagged tag ht
    · exact (w.tag_lt hu ht).trans_le fresh_le
  index_lt {u shelf i} hu hi := by
    rcases hu with rfl | hu
    · exact stored shelf i hi
    · exact (w.index_lt hu hi).trans_le (extent_le shelf)
  unique {u x} hu hx h := by
    rcases hu with rfl | hu <;> rcases hx with rfl | hx
    · rfl
    · exact absurd h.symm (new hx)
    · exact absurd h (new hu)
    · exact w.unique hu hx h
  seen_lt h := (w.seen_lt h).trans_le (extent_le .cursor)

/-- Adds an object under the next tag. -/
def add (w : World) (v : Value) (has : w.Has v.parts) (interned : v.Interned)
    (identity : v.identity = .tagged w.fresh) : World :=
  w.extend v (w.fresh + 1) w.extent has interned (Nat.le_succ _) (fun _ => Nat.le_refl _)
    (fun hu same => Nat.lt_irrefl _ (w.tag_lt hu (same.trans identity)))
    (fun tag ht => by
      cases identity.symm.trans ht
      exact Nat.lt_succ_self _)
    (fun shelf i hi => by cases identity.symm.trans hi)

/-- Adds an object that refers to the next cell of a store. -/
def allocate (w : World) (v : Value) (shelf : Shelf) (has : w.Has v.parts) (interned : v.Interned)
    (identity : v.identity = .stored shelf (w.extent shelf)) : World :=
  w.extend v w.fresh (Function.update w.extent shelf (w.extent shelf + 1)) has interned
    (Nat.le_refl _)
    (fun s => by
      by_cases hs : s = shelf
      · subst hs
        rw [Function.update_self]
        exact Nat.le_succ _
      · rw [Function.update_of_ne hs])
    (fun hu same => Nat.lt_irrefl _ (w.index_lt hu (same.trans identity)))
    (fun tag ht => by cases identity.symm.trans ht)
    (fun s i hi => by
      cases identity.symm.trans hi
      rw [Function.update_self]
      exact Nat.lt_succ_self _)

theorem le_extend (w : World) (v : Value) (fresh : Tag) (extent : Shelf → Nat) (has interned)
    (fresh_le extent_le new tagged stored) :
    w ≤ w.extend v fresh extent has interned fresh_le extent_le new tagged stored :=
  ⟨Set.subset_insert v w.objects, rfl⟩

theorem extend_has (w : World) (v : Value) (fresh : Tag) (extent : Shelf → Nat) (has interned)
    (fresh_le extent_le new tagged stored) :
    (w.extend v fresh extent has interned fresh_le extent_le new tagged stored).Has v :=
  Set.mem_insert v w.objects

namespace Models

variable {w : World} {h : Heap}

theorem start : World.start.Models Heap.empty where
  fresh := rfl
  extent shelf := by cases shelf <;> rfl
  list _ _ hx := by cases hx
  dict _ _ hx := by cases hx
  set _ _ hx := by cases hx
  cursor _ _ hx := by cases hx
  moved _ := ⟨fun _ seen => seen.elim, nofun⟩

end Models

/-- Some world that comes after models the heap and has the result. -/
def Later {α : Type} [Carries α] (w : World) (h : Heap) (x : α) : Prop :=
  ∃ w', w ≤ w' ∧ w'.Models h ∧ w'.Has x

theorem Models.later {α : Type} [Carries α] {w : World} {h : Heap} {x : α} (models : w.Models h)
    (has : w.Has x) : w.Later h x := ⟨w, le_refl w, models, has⟩

theorem Later.of_le {α : Type} [Carries α] {w w' : World} {h : Heap} {x : α} (le : w ≤ w')
    (later : w'.Later h x) : w.Later h x := by
  obtain ⟨w'', le', h⟩ := later
  exact ⟨w'', le_trans le le', h⟩

namespace Models

variable {w : World} {h : Heap}

/-- Iterators that there are have a lower level than those to come. -/
theorem level_le (models : w.Models h) {v : Value} (has : w.Has v) :
    v.level ≤ h.cursors.size + 1 := by
  cases v with
  | cursor form r =>
    have inside : r.index < w.extent .cursor := w.index_lt has rfl
    exact Nat.succ_le_succ (inside.trans_eq (models.extent .cursor).symm)
  | _ => exact Nat.le_add_left 1 _

-- ---------------------------------------------------------------------------
-- Making objects
-- ---------------------------------------------------------------------------

theorem add (models : w.Models h) {v : Value} (has : w.Has v.parts) (interned : v.Interned)
    (identity : v.identity = .tagged h.fresh) : w.Later { h with fresh := h.fresh + 1 } v := by
  rw [models.fresh] at identity
  refine ⟨w.add v has interned identity, le_extend .., ?_, extend_has ..⟩
  exact
    { fresh := congrArg (· + 1) models.fresh
      extent := models.extent
      list := fun r => (models.list r).mono (le_extend ..)
      dict := fun r => (models.dict r).mono (le_extend ..)
      set := fun r => (models.set r).mono (le_extend ..)
      cursor := fun r => (models.cursor r).mono (le_extend ..)
      moved := fun r => (models.moved r).mono (le_extend ..) }

/-- A new cell, all other cells as they were. -/
theorem allocate (models : w.Models h) {h' : Heap} {v : Value} (shelf : Shelf)
    (parts : v.parts = []) (interned : v.Interned)
    (identity : v.identity = .stored shelf (h.extent shelf))
    (fresh : h'.fresh = h.fresh)
    (extent : h'.extent = Function.update h.extent shelf (h.extent shelf + 1))
    (list : ∀ r, w.Has (h'.list r)) (dict : ∀ r, w.Has (h'.dict r)) (set : ∀ r, w.Has (h'.set r))
    (cursor : ∀ r, w.Has (h'.cursor r)) (moved : ∀ r, w.Admits r (h'.cursor r)) :
    w.Later h' v := by
  rw [funext models.extent] at identity extent
  have has : w.Has v.parts := by rw [parts]; exact fun _ hx => by cases hx
  refine ⟨w.allocate v shelf has interned identity, le_extend .., ?_, extend_has ..⟩
  exact
    { fresh := fresh.trans models.fresh
      extent := congrFun extent
      list := fun r => (list r).mono (le_extend ..)
      dict := fun r => (dict r).mono (le_extend ..)
      set := fun r => (set r).mono (le_extend ..)
      cursor := fun r => (cursor r).mono (le_extend ..)
      moved := fun r => (moved r).mono (le_extend ..) }

theorem newList (models : w.Models h) {items : List Value} (has : w.Has items) :
    w.Later { h with lists := h.lists.push items.toArray } (Value.list ⟨h.lists.size⟩) := by
  refine models.allocate .list rfl trivial rfl rfl ?_ (fun r => ?_) models.dict models.set models.cursor
    models.moved
  · funext s; cases s <;> simp [Heap.extent]
  · simp only [Heap.list, Store.get_push]
    split
    · exact has
    · exact models.list r

theorem newDict (models : w.Models h) {t : Table} (has : w.Has t) :
    w.Later { h with dicts := h.dicts.push t } (Value.dict ⟨h.dicts.size⟩) := by
  refine models.allocate .dict rfl trivial rfl rfl ?_ models.list (fun r => ?_) models.set models.cursor
    models.moved
  · funext s; cases s <;> simp [Heap.extent]
  · simp only [Heap.dict, Store.get_push]
    split
    · exact has
    · exact models.dict r

theorem newSet (models : w.Models h) {keys : KeySet} (has : w.Has keys) :
    w.Later { h with sets := h.sets.push keys } (Value.set ⟨h.sets.size⟩) := by
  refine models.allocate .set rfl trivial rfl rfl ?_ models.list models.dict (fun r => ?_) models.cursor
    models.moved
  · funext s; cases s <;> simp [Heap.extent]
  · simp only [Heap.set, Store.get_push]
    split
    · exact has
    · exact models.set r

theorem newBytearray (models : w.Models h) (data : List UInt8) :
    w.Later { h with bytearrays := h.bytearrays.push data.toArray }
      (Value.bytearray ⟨h.bytearrays.size⟩) := by
  refine models.allocate .bytearray rfl trivial rfl rfl ?_ models.list models.dict models.set models.cursor
    models.moved
  funext s; cases s <;> simp [Heap.extent]

theorem newCursor (models : w.Models h) {c : Cursor} (has : w.Has c) (form : CursorKind) :
    w.Later { h with cursors := h.cursors.push c } (Value.cursor form ⟨h.cursors.size⟩) := by
  refine models.allocate .cursor rfl trivial rfl rfl ?_ models.list models.dict models.set (fun r => ?_)
    fun r => ⟨fun c₀ seen => ?_, ?_⟩
  · funext s; cases s <;> simp [Heap.extent]
  · simp only [Heap.cursor, Store.get_push]
    split
    · exact has
    · exact models.cursor r
  · have old : r.index < h.cursors.size := (w.seen_lt seen).trans_eq (models.extent .cursor).symm
    simp only [Heap.cursor, Store.get_push_of_lt _ _ old]
    exact (models.moved r).leads c₀ seen
  · simp only [Heap.cursor, Store.get_push]
    split
    · next new => exact fun v hv => new ▸ models.level_le (has_inputs has v hv)
    · exact (models.moved r).ordered

theorem newFile (models : w.Models h) (f : File) :
    w.Later { h with files := h.files.push f } (Value.file f.mode ⟨h.files.size⟩) := by
  refine models.allocate .file rfl trivial rfl rfl ?_ models.list models.dict models.set models.cursor
    models.moved
  funext s; cases s <;> simp [Heap.extent]

-- ---------------------------------------------------------------------------
-- Writing to cells that are there
-- ---------------------------------------------------------------------------

theorem index_lt (models : w.Models h) {v : Value} (hv : w.Has v) {shelf : Shelf} {i : Nat}
    (hi : v.identity = .stored shelf i) : i < h.extent shelf :=
  models.extent shelf ▸ w.index_lt hv hi

theorem putList (models : w.Models h) {r : Ref .list} (hr : w.Has (Value.list r))
    {items : List Value} (has : w.Has items) : w.Models (h.putList r items) where
  fresh := models.fresh
  extent shelf := by
    rw [← models.extent]
    cases shelf <;> first | rfl | exact Store.size_set_of_lt _ _ (models.index_lt hr rfl)
  list s := by
    simp only [Heap.list, Heap.putList, Store.get_set]
    split
    · exact has
    · exact models.list s
  dict := models.dict
  set := models.set
  cursor := models.cursor
  moved := models.moved

theorem putDict (models : w.Models h) {r : Ref .dict} (hr : w.Has (Value.dict r)) {t : Table}
    (has : w.Has t) : w.Models (h.putDict r t) where
  fresh := models.fresh
  extent shelf := by
    rw [← models.extent]
    cases shelf <;> first | rfl | exact Store.size_set_of_lt _ _ (models.index_lt hr rfl)
  list := models.list
  dict s := by
    simp only [Heap.dict, Heap.putDict, Store.get_set]
    split
    · exact has
    · exact models.dict s
  set := models.set
  cursor := models.cursor
  moved := models.moved

theorem putSet (models : w.Models h) {r : Ref .set} (hr : w.Has (Value.set r)) {keys : KeySet}
    (has : w.Has keys) : w.Models (h.putSet r keys) where
  fresh := models.fresh
  extent shelf := by
    rw [← models.extent]
    cases shelf <;> first | rfl | exact Store.size_set_of_lt _ _ (models.index_lt hr rfl)
  list := models.list
  dict := models.dict
  set s := by
    simp only [Heap.set, Heap.putSet, Store.get_set]
    split
    · exact has
    · exact models.set s
  cursor := models.cursor
  moved := models.moved

theorem putBytearray (models : w.Models h) {r : Ref .bytearray}
    (hr : w.Has (Value.bytearray r)) (data : List UInt8) : w.Models (h.putBytearray r data) where
  fresh := models.fresh
  extent shelf := by
    rw [← models.extent]
    cases shelf <;> first | rfl | exact Store.size_set_of_lt _ _ (models.index_lt hr rfl)
  list := models.list
  dict := models.dict
  set := models.set
  cursor := models.cursor
  moved := models.moved

theorem putCursor (models : w.Models h) {form : CursorKind} {r : Ref .cursor}
    (hr : w.Has (Value.cursor form r)) {c : Cursor} (has : w.Has c) (admits : w.Admits r c) :
    w.Models (h.putCursor r c) where
  fresh := models.fresh
  extent shelf := by
    rw [← models.extent]
    cases shelf <;> first | rfl | exact Store.size_set_of_lt _ _ (models.index_lt hr rfl)
  list := models.list
  dict := models.dict
  set := models.set
  cursor s := by
    simp only [Heap.cursor, Heap.putCursor, Store.get_set]
    split
    · exact has
    · exact models.cursor s
  moved s := by
    simp only [Heap.cursor, Heap.putCursor, Store.get_set]
    split
    · next same =>
      have here : s = r := congrArg Ref.mk same
      exact here ▸ admits
    · exact models.moved s

theorem putFile (models : w.Models h) {mode : FileMode} {r : Ref .file}
    (hr : w.Has (Value.file mode r)) (f : File) : w.Models (h.putFile r f) where
  fresh := models.fresh
  extent shelf := by
    rw [← models.extent]
    cases shelf <;> first | rfl | exact Store.size_set_of_lt _ _ (models.index_lt hr rfl)
  list := models.list
  dict := models.dict
  set := models.set
  cursor := models.cursor
  moved := models.moved

end Models

end World

end ObjectModel
