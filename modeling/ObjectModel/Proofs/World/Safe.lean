import ObjectModel.Proofs.Run
import ObjectModel.Proofs.World.Grow

/-!
# Safe actions

An action is safe in a world if, run on a heap that the world models, it leaves
one that a later world models, and its result or its fault holds no value but
objects of that world. An action that makes no object keeps the world. What an
action changed before it failed is there to stay, so failing makes no
difference.

Main statements: the rules for building actions, and the safety of reading,
writing and making objects.
-/

namespace ObjectModel

open ObjectModel.Action

namespace World

variable {α β γ : Type} [Carries α] [Carries β] [Carries γ]

/-- Whatever heap of the world the action is run on, a later world has what
comes of it. -/
def Safe (w : World) (a : Action α) : Prop :=
  ∀ s, w.Models s.heap → w.Later (a.runOn s).2.heap (a.runOn s).1

/-- The same with no object made. -/
def Keeps (w : World) (a : Action α) : Prop :=
  ∀ s, w.Models s.heap → w.Models (a.runOn s).2.heap ∧ w.Has (a.runOn s).1

theorem Keeps.safe {w : World} {a : Action α} (ha : w.Keeps a) : w.Safe a := fun s models =>
  (ha s models).1.later (ha s models).2

-- ---------------------------------------------------------------------------
-- Keeping the world
-- ---------------------------------------------------------------------------

namespace Keeps

variable {w : World}

theorem pure {x : α} (has : w.Has x) : w.Keeps (pure x : Action α) := fun _ models =>
  ⟨models, has⟩

theorem throw {f : Fault} (has : w.Has f) : w.Keeps (throw f : Action α) := fun _ models =>
  ⟨models, has⟩

theorem fail {c : Cause} : w.Keeps (fail c : Action α) := throw trivial

theorem unimplemented {operation : String} {subject : Kind} :
    w.Keeps (unimplemented operation subject : Action α) := throw trivial

theorem bind {a : Action α} {f : α → Action β} (ha : w.Keeps a)
    (hf : ∀ x, w.Has x → w.Keeps (f x)) : w.Keeps (a >>= f) := by
  intro s models
  obtain ⟨models', has⟩ := ha s models
  rw [runOn_bind]
  match hr : a.runOn s with
  | (.ok x, after) =>
    rw [hr] at models' has
    exact hf x has after models'
  | (.error e, after) =>
    rw [hr] at models' has
    exact ⟨models', has⟩

/-- Once the world has been kept, what follows is safe in it. -/
theorem and_then {a : Action α} {f : α → Action β} (ha : w.Keeps a)
    (hf : ∀ x, w.Has x → w.Safe (f x)) : w.Safe (a >>= f) := by
  intro s models
  obtain ⟨models', has⟩ := ha s models
  rw [runOn_bind]
  match hr : a.runOn s with
  | (.ok x, after) =>
    rw [hr] at models' has
    exact hf x has after models'
  | (.error e, after) =>
    rw [hr] at models' has
    exact models'.later (x := (.error e : Except Fault β)) has

/-- What is computed without the session. -/
theorem lift {x : Except Cause α} (has : ∀ a, x = .ok a → w.Has a) :
    w.Keeps (liftM x : Action α) := by
  cases x with
  | ok a => exact pure (has a rfl)
  | error c => exact fail

theorem lift_bind {δ : Type} {x : Except Cause δ} {f : δ → Action β}
    (hf : ∀ a, x = .ok a → w.Keeps (f a)) : w.Keeps (liftM x >>= f) := by
  cases x with
  | ok a => exact hf a rfl
  | error c => exact fail

theorem lift_gap {x : Except Gap α} (has : ∀ a, x = .ok a → w.Has a) :
    w.Keeps (liftM x : Action α) := by
  cases x with
  | ok a => exact pure (has a rfl)
  | error g => exact throw trivial

theorem heap_bind {f : Heap → Action β} (hf : ∀ h, w.Models h → w.Keeps (f h)) :
    w.Keeps (heap >>= f) := fun s models => hf s.heap models s models

theorem modifyHeap {f : Heap → Heap} (hf : ∀ h, w.Models h → w.Models (f h)) :
    w.Keeps (modifyHeap f) := fun s models => ⟨hf s.heap models, trivial⟩

theorem readList (r : Ref .list) : w.Keeps (readList r) :=
  heap_bind fun _ models => pure (models.list r)

theorem listSize (r : Ref .list) : w.Keeps (listSize r) := heap_bind fun _ _ => pure trivial

theorem readListItem? (r : Ref .list) (position : Nat) : w.Keeps (readListItem? r position) :=
  heap_bind fun h models => pure (x := h.listItem? r position) fun v hv => by
    rw [Heap.listItem?_eq] at hv
    exact models.list r v (List.mem_of_getElem? hv)

theorem readDict (r : Ref .dict) : w.Keeps (readDict r) :=
  heap_bind fun _ models => pure (models.dict r)

theorem readSet (r : Ref .set) : w.Keeps (readSet r) :=
  heap_bind fun _ models => pure (models.set r)

theorem readBytearray (r : Ref .bytearray) : w.Keeps (readBytearray r) :=
  heap_bind fun _ _ => pure fun _ _ => trivial

theorem readBytearrayItem? (r : Ref .bytearray) (position : Nat) :
    w.Keeps (readBytearrayItem? r position) :=
  heap_bind fun _ _ => pure fun _ _ => trivial

theorem readFile (r : Ref .file) : w.Keeps (readFile r) := heap_bind fun _ _ => pure trivial

theorem writeList {r : Ref .list} (hr : w.Has (Value.list r)) {items : List Value}
    (has : w.Has items) : w.Keeps (writeList r items) :=
  modifyHeap fun _ models => models.putList hr has

theorem appendList {r : Ref .list} (hr : w.Has (Value.list r)) {items : List Value}
    (has : w.Has items) : w.Keeps (appendList r items) :=
  modifyHeap fun h models => by
    rw [Heap.appendList_eq]
    exact models.putList hr (List.forall_mem_append.2 ⟨models.list r, has⟩)

theorem eraseListItem {r : Ref .list} (hr : w.Has (Value.list r)) (position : Nat) :
    w.Keeps (eraseListItem r position) :=
  modifyHeap fun h models => by
    rw [Heap.eraseListItem_eq]
    exact models.putList hr fun v hv => models.list r v (List.mem_of_mem_eraseIdx hv)

theorem writeDict {r : Ref .dict} (hr : w.Has (Value.dict r)) {t : Table} (has : w.Has t) :
    w.Keeps (writeDict r t) :=
  modifyHeap fun _ models => models.putDict hr has

theorem modifyDict {r : Ref .dict} (hr : w.Has (Value.dict r)) {f : Table → Table}
    (hf : ∀ t, w.Has t → w.Has (f t)) : w.Keeps (modifyDict r f) :=
  modifyHeap fun h models => by
    rw [Heap.modifyDict_eq]
    exact models.putDict hr (hf _ (models.dict r))

theorem writeSet {r : Ref .set} (hr : w.Has (Value.set r)) {keys : KeySet} (has : w.Has keys) :
    w.Keeps (writeSet r keys) :=
  modifyHeap fun _ models => models.putSet hr has

theorem modifySet {r : Ref .set} (hr : w.Has (Value.set r)) {f : KeySet → KeySet}
    (hf : ∀ t, w.Has t → w.Has (f t)) : w.Keeps (modifySet r f) :=
  modifyHeap fun h models => by
    rw [Heap.modifySet_eq]
    exact models.putSet hr (hf _ (models.set r))

theorem writeBytearray {r : Ref .bytearray} (hr : w.Has (Value.bytearray r)) (data : List UInt8) :
    w.Keeps (writeBytearray r data) :=
  modifyHeap fun _ models => models.putBytearray hr data

theorem appendBytearray {r : Ref .bytearray} (hr : w.Has (Value.bytearray r))
    (data : List UInt8) : w.Keeps (appendBytearray r data) :=
  modifyHeap fun h models => by
    rw [Heap.appendBytearray_eq]
    exact models.putBytearray hr _

theorem writeCursor {form : CursorKind} {r : Ref .cursor} (hr : w.Has (Value.cursor form r))
    {c : Cursor} (has : w.Has c) (admits : w.Admits r c) : w.Keeps (writeCursor r c) :=
  modifyHeap fun _ models => models.putCursor hr has admits

theorem writeFile {mode : FileMode} {r : Ref .file} (hr : w.Has (Value.file mode r)) (f : File) :
    w.Keeps (writeFile r f) :=
  modifyHeap fun _ models => models.putFile hr f

theorem print (text : List Char) : w.Keeps (print text) := fun _ models => ⟨models, trivial⟩

theorem takeOutput : w.Keeps takeOutput := fun _ models => ⟨models, fun _ _ => trivial⟩

theorem equals (a b : Value) : w.Keeps (equals a b) := heap_bind fun _ _ => pure trivial

theorem repr (v : Value) : w.Keeps (repr v) := heap_bind fun _ _ => pure fun _ _ => trivial

theorem str (v : Value) : w.Keeps (str v) := heap_bind fun _ _ => pure fun _ _ => trivial

end Keeps

-- ---------------------------------------------------------------------------
-- Safety
-- ---------------------------------------------------------------------------

namespace Safe

variable {w : World}

theorem pure {x : α} (has : w.Has x) : w.Safe (pure x : Action α) := (Keeps.pure has).safe

theorem throw {f : Fault} (has : w.Has f) : w.Safe (throw f : Action α) := (Keeps.throw has).safe

theorem fail {c : Cause} : w.Safe (fail c : Action α) := throw trivial

theorem unimplemented {operation : String} {subject : Kind} :
    w.Safe (unimplemented operation subject : Action α) := throw trivial

theorem bind {a : Action α} {f : α → Action β} (ha : w.Safe a)
    (hf : ∀ w' x, w ≤ w' → w'.Has x → w'.Safe (f x)) : w.Safe (a >>= f) := by
  intro s models
  obtain ⟨w', le, models', has⟩ := ha s models
  rw [runOn_bind]
  match hr : a.runOn s with
  | (.ok x, after) =>
    rw [hr] at models' has
    exact (hf w' x le has after models').of_le le
  | (.error e, after) =>
    rw [hr] at models' has
    exact ⟨w', le, models', has⟩

/-- Nothing follows a failure. -/
theorem fail_bind {δ : Type} {c : Cause} {f : δ → Action β} : w.Safe (Action.fail c >>= f) :=
  fun _ models => models.later (x := (.error (.cause c) : Except Fault β)) trivial

theorem unimplemented_bind {δ : Type} {operation : String} {subject : Kind} {f : δ → Action β} :
    w.Safe (Action.unimplemented operation subject >>= f) :=
  fun _ models =>
    models.later (x := (.error (.unimplemented operation subject) : Except Fault β)) trivial

theorem lift_bind {δ : Type} {x : Except Cause δ} {f : δ → Action β}
    (hf : ∀ a, x = .ok a → w.Safe (f a)) : w.Safe (liftM x >>= f) := by
  cases x with
  | ok a => exact hf a rfl
  | error c => exact fail

theorem heap_bind {f : Heap → Action β} (hf : ∀ h, w.Models h → w.Safe (f h)) :
    w.Safe (heap >>= f) := fun s models => hf s.heap models s models

/-- A cursor is read at a place where it may be. -/
theorem cursor_bind {r : Ref .cursor} {f : Cursor → Action β}
    (hf : ∀ c, w.Has c → w.Admits r c → w.Safe (f c)) : w.Safe (Action.readCursor r >>= f) :=
  fun s models => hf (s.heap.cursor r) (models.cursor r) (models.moved r) s models

theorem session_bind {f : Session → Action β} (hf : ∀ s, w.Models s.heap → w.Safe (f s)) :
    w.Safe (get >>= f) := fun s models => hf s models s models

theorem tryCatch {a : Action α} {f : Fault → Action α} (ha : w.Safe a)
    (hf : ∀ w' e, w ≤ w' → w'.Has e → w'.Safe (f e)) : w.Safe (tryCatch a f) := by
  intro s models
  obtain ⟨w', le, models', has⟩ := ha s models
  rw [runOn_tryCatch]
  match hr : a.runOn s with
  | (.ok x, after) =>
    rw [hr] at models' has
    exact ⟨w', le, models', has⟩
  | (.error e, after) =>
    rw [hr] at models' has
    exact (hf w' e le has after models').of_le le

theorem mapM {f : γ → Action β} {xs : List γ} (has : w.Has xs)
    (hf : ∀ w' x, w ≤ w' → w'.Has x → w'.Safe (f x)) : w.Safe (xs.mapM f) := by
  induction xs generalizing w with
  | nil => exact pure fun _ hy => by cases hy
  | cons x xs ih =>
    obtain ⟨hx, hxs⟩ := List.forall_mem_cons.1 has
    rw [List.mapM_cons]
    refine bind (hf w x (le_refl w) hx) fun w' y le hy => ?_
    refine bind (ih (World.Has.mono (x := xs) hxs le) fun w'' z le' => hf w'' z (le_trans le le')) ?_
    exact fun w'' ys le' hys => pure (List.forall_mem_cons.2 ⟨hy.mono le', hys⟩)

theorem forM {f : γ → Action PUnit} {xs : List γ} (has : w.Has xs)
    (hf : ∀ w' x, w ≤ w' → w'.Has x → w'.Safe (f x)) : w.Safe (xs.forM f) := by
  induction xs generalizing w with
  | nil => exact pure trivial
  | cons x xs ih =>
    obtain ⟨hx, hxs⟩ := List.forall_mem_cons.1 has
    refine bind (hf w x (le_refl w) hx) fun w' _ le _ => ?_
    exact ih (World.Has.mono (x := xs) hxs le) fun w'' z le' => hf w'' z (le_trans le le')

-- ---------------------------------------------------------------------------
-- Making objects
-- ---------------------------------------------------------------------------

/-- An object made under the next tag. -/
theorem make {mk : Tag → Value} (has : ∀ tag, w.Has (mk tag).parts)
    (interned : ∀ tag, Tag.shared < tag → (mk tag).Interned)
    (identity : ∀ tag, Tag.shared < tag → (mk tag).identity = .tagged tag) :
    w.Safe (do return mk (← freshTag)) := by
  intro s models
  have unshared : Tag.shared < s.heap.fresh := models.fresh ▸ w.fresh_pos
  exact models.add (has _) (interned _ unshared) (identity _ unshared)

/-- An object that is made unless it is there already. -/
theorem makeUnless {shared : Bool} (mk : Tag → Value) (has : ∀ tag, w.Has (mk tag).parts)
    (interned : ∀ tag, (mk tag).Interned ↔ (tag = Tag.shared ↔ shared = true))
    (present : shared = true → (mk Tag.shared).isShared = true)
    (identity : ∀ tag, tag ≠ Tag.shared → (mk tag).identity = .tagged tag) :
    w.Safe (do return mk (← tagUnless shared)) := by
  cases shared with
  | true => exact pure (w.shared (present rfl))
  | false =>
    refine make has (fun tag unshared => (interned tag).2 ?_) fun tag unshared =>
      identity tag (Nat.ne_of_gt unshared)
    exact iff_of_false (Nat.ne_of_gt unshared) Bool.false_ne_true

theorem newInt (n : Int64) : w.Safe (newInt n) :=
  makeUnless (.int · n) (fun _ _ hx => by cases hx) (fun _ => .rfl)
    (fun small => small) fun _ unshared => if_neg unshared

theorem newByte (b : UInt8) : w.Safe (newByte b) := newInt _

theorem newText (t : Text) : w.Safe (newText t) :=
  makeUnless (.str · t) (fun _ _ hx => by cases hx) (fun _ => .rfl)
    (fun empty => empty) fun _ unshared => if_neg unshared

theorem newChars (cs : List Char) : w.Safe (newChars cs) := newText _

theorem newBytes (data : List UInt8) : w.Safe (newBytes data) :=
  make (fun _ _ hx => by cases hx) (fun _ _ => trivial) fun _ _ => rfl

theorem newTuple {items : List Value} (has : w.Has items) : w.Safe (newTuple items) :=
  makeUnless (.tuple · items) (fun _ => has) (fun _ => .rfl)
    (fun empty => empty) fun _ unshared => if_neg unshared

theorem newRange (r : Range) : w.Safe (newRange r) :=
  make (fun _ _ hx => by cases hx) (fun _ _ => trivial) fun _ _ => rfl

theorem newSlice {start stop step : Value} (h : w.Has start) (h' : w.Has stop) (h'' : w.Has step) :
    w.Safe (newSlice start stop step) :=
  make (fun _ => has_cons h (has_cons h' (has_cons h'' has_nil))) (fun _ _ => trivial)
    fun _ _ => rfl

theorem newView (part : Part) {source : Ref .dict} (h : w.Has (Value.dict source)) :
    w.Safe (newView part source) :=
  make (fun _ => List.forall_mem_singleton.2 h) (fun _ _ => trivial) fun _ _ => rfl

theorem newMethod {receiver : Value} (h : w.Has receiver) (m : Method) :
    w.Safe (newMethod receiver m) :=
  make (fun _ => List.forall_mem_singleton.2 h) (fun _ _ => trivial) fun _ _ => rfl

theorem newError (e : ErrorKind) {args : List Value} (has : w.Has args) :
    w.Safe (newError e args) := fun s models =>
  models.add (v := .error s.heap.fresh e args) has trivial rfl

theorem newList {items : List Value} (has : w.Has items) : w.Safe (newList items) :=
  fun _ models => models.newList has

theorem newDict {t : Table} (has : w.Has t) : w.Safe (newDict t) :=
  fun _ models => models.newDict has

theorem newSet {keys : KeySet} (has : w.Has keys) : w.Safe (newSet keys) :=
  fun _ models => models.newSet has

theorem newBytearray (data : List UInt8) : w.Safe (newBytearray data) :=
  fun _ models => models.newBytearray data

theorem newCursor (form : CursorKind) {c : Cursor} (has : w.Has c) : w.Safe (newCursor form c) :=
  fun _ models => models.newCursor has form

theorem newFile (f : File) : w.Safe (newFile f) := fun _ models => models.newFile f

end Safe

end World

end ObjectModel
