import ObjectModel.Proofs.Content
import ObjectModel.Proofs.Quiet

/-!
# All or nothing

What an action changed before it failed is there to stay. An action that reads
all it needs before it writes, and cannot fail once it has written, leaves no
half of a change behind. The operators in place, assigning and deleting items,
and the methods of containers are of that kind, but for sorting, for adding
several sources to a set and for updating a dict.

Main statements: `AllOrNothing.inPlace`, `AllOrNothing.setItem` and
`AllOrNothing.delItem`, and for methods `AllOrNothing.callList`,
`AllOrNothing.callSet`, `AllOrNothing.callBytearray` and `AllOrNothing.callDict`.
-/

namespace ObjectModel

open ObjectModel.Action

/-- Every list, dict, set and bytearray holds in the second heap what it holds
in the first. -/
structure Heap.Unchanged (h h' : Heap) : Prop where
  list : ∀ r, h'.list r = h.list r
  dict : ∀ r, h'.dict r = h.dict r
  set : ∀ r, h'.set r = h.set r
  bytearray : ∀ r, h'.bytearray r = h.bytearray r

namespace Heap

variable {h h' h'' : Heap}

theorem Unchanged.trans (first : h.Unchanged h') (second : h'.Unchanged h'') :
    h.Unchanged h'' where
  list r := (second.list r).trans (first.list r)
  dict r := (second.dict r).trans (first.dict r)
  set r := (second.set r).trans (first.set r)
  bytearray r := (second.bytearray r).trans (first.bytearray r)

theorem unchanged_of_contents (same : h'.contents = h.contents) : h.Unchanged h' := by
  simp only [contents, Prod.mk.injEq] at same
  obtain ⟨lists, dicts, sets, bytearrays⟩ := same
  exact {
    list := fun r => by rw [list, list, lists]
    dict := fun r => by rw [dict, dict, dicts]
    set := fun r => by rw [set, set, sets]
    bytearray := fun r => by rw [bytearray, bytearray, bytearrays] }

/-- Writing back what a set holds changes nothing. -/
theorem unchanged_putSet (h : Heap) (r : Ref .set) : h.Unchanged (h.putSet r (h.set r)) where
  list _ := rfl
  dict _ := rfl
  set s := by
    simp only [set, putSet, Store.get_set]
    split
    · next same => rw [same]
    · rfl
  bytearray _ := rfl

theorem dict_putDict_eq (h : Heap) (r : Ref .dict) (t : Table) (s : Ref .dict) :
    (h.putDict r t).dict s = if s.index = r.index then t else h.dict s := Store.get_set ..

/-- Writing back what a dict holds changes nothing. -/
theorem putDict_unchanged (h : Heap) (r : Ref .dict) : (h.putDict r (h.dict r)).Unchanged h where
  list _ := rfl
  dict s := by
    rw [dict_putDict_eq]
    split
    · next same => rw [dict, dict, same]
    · rfl
  set _ := rfl
  bytearray _ := rfl

theorem Unchanged.putDict (same : h.Unchanged h') (r : Ref .dict) (t : Table) :
    (h.putDict r t).Unchanged (h'.putDict r t) where
  list := same.list
  dict s := by rw [dict_putDict_eq, dict_putDict_eq, same.dict]
  set := same.set
  bytearray := same.bytearray

/-- A dict holds what was written last. -/
theorem unchanged_putDict_putDict (h : Heap) (r : Ref .dict) (t u : Table) :
    (h.putDict r u).Unchanged ((h.putDict r t).putDict r u) where
  list _ := rfl
  dict s := by
    rw [dict_putDict_eq, dict_putDict_eq, dict_putDict_eq]
    split <;> rfl
  set _ := rfl
  bytearray _ := rfl

end Heap

namespace Action

variable {α β : Type} {a : Action α} {f : α → Action β}

/-- Wherever the action starts, it does not fail. -/
def NeverFails (a : Action α) : Prop := ∀ s, ∃ x t, a.runOn s = (.ok x, t)

/-- If the action fails, all containers hold what they held. -/
def AllOrNothing (a : Action α) : Prop :=
  ∀ s e t, a.runOn s = (.error e, t) → s.heap.Unchanged t.heap

namespace NeverFails

theorem pure (x : α) : NeverFails (pure x : Action α) := fun s => ⟨x, s, rfl⟩

theorem bind (ha : NeverFails a) (hf : ∀ x, NeverFails (f x)) : NeverFails (a >>= f) := by
  intro s
  obtain ⟨x, t, run⟩ := ha s
  obtain ⟨y, u, run'⟩ := hf x t
  exact ⟨y, u, (runOn_bind_of_ok run f).trans run'⟩

theorem modifyHeap (g : Heap → Heap) : NeverFails (modifyHeap g) := fun _ => ⟨_, _, rfl⟩

theorem putAll (r : Ref .dict) (entries : Table) : NeverFails (DictMethod.putAll r entries) :=
  fun _ => ⟨_, _, rfl⟩

theorem newList (items : List Value) : NeverFails (newList items) := fun _ => ⟨_, _, rfl⟩

theorem newDict (t : Table) : NeverFails (newDict t) := fun _ => ⟨_, _, rfl⟩

theorem newSet (keys : KeySet) : NeverFails (newSet keys) := fun _ => ⟨_, _, rfl⟩

end NeverFails

-- ---------------------------------------------------------------------------
-- Building actions
-- ---------------------------------------------------------------------------

namespace AllOrNothing

theorem of_quiet (ha : Quiet a) : AllOrNothing a := fun s _ _ run =>
  Heap.unchanged_of_contents ((congrArg (·.2.heap.contents) run).symm.trans (ha s))

theorem of_neverFails (ha : NeverFails a) : AllOrNothing a := fun s _ _ run => by
  obtain ⟨x, u, run'⟩ := ha s
  cases run'.symm.trans run

theorem of_builds (ha : Builds a) : AllOrNothing a := fun s _ _ run => by
  obtain ⟨fresh, rfl⟩ := ha.reaches run
  exact Heap.unchanged_of_contents rfl

/-- Writing comes last. -/
theorem of_write (g : Heap → Heap) (x : α) : AllOrNothing (do modifyHeap g; return x) :=
  of_neverFails (.bind (.modifyHeap g) fun _ => .pure x)

theorem throw (e : Fault) : AllOrNothing (throw e : Action α) := of_quiet (.throw e)

/-- Reading comes first. -/
theorem bind (ha : Quiet a) (hf : ∀ x, AllOrNothing (f x)) : AllOrNothing (a >>= f) := by
  intro s e t run
  have first := ha s
  rw [runOn_bind] at run
  match hr : a.runOn s with
  | (.ok x, after) =>
    rw [hr] at run first
    exact (Heap.unchanged_of_contents first).trans (hf x after e t run)
  | (.error e', after) =>
    rw [hr] at run first
    cases run
    exact Heap.unchanged_of_contents first

/-- What is computed without the session comes first. -/
theorem lift_bind {x : Except Cause α} (hf : ∀ y, x = .ok y → AllOrNothing (f y)) :
    AllOrNothing (liftM x >>= f) := by
  cases x with
  | ok y => exact hf y rfl
  | error c => exact throw _

/-- What comes last cannot fail. -/
theorem and_then (ha : AllOrNothing a) (hf : ∀ x, NeverFails (f x)) :
    AllOrNothing (a >>= f) := by
  intro s e t run
  rw [runOn_bind] at run
  match hr : a.runOn s with
  | (.ok x, after) =>
    rw [hr] at run
    obtain ⟨y, u, run'⟩ := hf x after
    cases run'.symm.trans run
  | (.error e', after) =>
    rw [hr] at run
    cases run
    exact ha s _ _ hr

/-- Several such actions may fail after one has written, but not one alone. -/
theorem forM {g : β → Action PUnit} (hg : ∀ x, AllOrNothing (g x)) {xs : List β}
    (one : xs.length ≤ 1) : AllOrNothing (xs.forM g) := by
  match xs, one with
  | [], _ => exact of_neverFails (.pure _)
  | [x], _ => exact (hg x).and_then fun _ => .pure _

end AllOrNothing

end Action

/-- A call that takes at most one argument. -/
theorem Arguments.length_of_plain {a : Arguments} {name : String} {least most : Nat} {u : Unit}
    (h : a.plain name least most = .ok u) : a.positional.length ≤ most := by
  unfold Arguments.plain Arguments.noKeywords Arguments.arity at h
  split at h
  · simp only [bind, Except.bind] at h
    split at h
    · next given => exact given.2
    · cases h
  · cases h

namespace Action.AllOrNothing

open Arguments (length_of_plain)

-- ---------------------------------------------------------------------------
-- Operators
-- ---------------------------------------------------------------------------

theorem binary (op : BinaryOp) (a b : Value) : AllOrNothing (binary op a b) :=
  of_builds (.binary op a b)

theorem extendList (r : Ref .list) (v : Value) : AllOrNothing (extendList r v) := by
  have write (extra : List Value) : AllOrNothing (appendList r extra) :=
    of_neverFails (.modifyHeap _)
  cases v with
  | list s => exact bind (.read _) write
  | _ => exact bind (.items _) write

theorem inPlace (op : BinaryOp) (a b : Value) : AllOrNothing (inPlace op a b) := by
  unfold Action.inPlace
  split
  · exact (extendList _ b).and_then fun _ => .pure _
  · exact bind (.read _) fun _ => lift_bind fun _ _ => of_write _ _
  · exact bind (.byteOperand _ b) fun _ => of_write _ _
  · split
    · exact bind (.setOperand _ b) fun _ => bind (.read _) fun _ => of_write _ _
    · exact binary op _ b
  · exact binary op a b

-- ---------------------------------------------------------------------------
-- Items
-- ---------------------------------------------------------------------------

theorem setItem (target key value : Value) : AllOrNothing (setItem target key value) := by
  cases target with
  | list r =>
    refine lift_bind fun sub _ => ?_
    cases sub with
    | index i => exact bind (.read _) fun _ => lift_bind fun _ _ => of_neverFails (.modifyHeap _)
    | slice => exact throw _
  | bytearray r =>
    refine lift_bind fun sub _ => ?_
    cases sub with
    | index i =>
      exact lift_bind fun _ _ => bind (.read _) fun _ => lift_bind fun _ _ =>
        of_neverFails (.modifyHeap _)
    | slice => exact throw _
  | dict r => exact lift_bind fun _ _ => of_neverFails (.modifyHeap _)
  | _ => exact throw _

theorem delItem (target key : Value) : AllOrNothing (delItem target key) := by
  cases target with
  | list r =>
    refine lift_bind fun sub _ => ?_
    cases sub with
    | index i => exact bind (.read _) fun _ => lift_bind fun _ _ => of_neverFails (.modifyHeap _)
    | slice => exact throw _
  | bytearray r =>
    refine lift_bind fun sub _ => ?_
    cases sub with
    | index i => exact bind (.read _) fun _ => lift_bind fun _ _ => of_neverFails (.modifyHeap _)
    | slice => exact throw _
  | dict r =>
    refine lift_bind fun k _ => bind (.read _) fun t => ?_
    split
    · exact of_neverFails (.modifyHeap _)
    · exact throw _
  | _ => exact throw _

-- ---------------------------------------------------------------------------
-- Methods of lists
-- ---------------------------------------------------------------------------

theorem index (items : List Value) (k : Kind) (a : Arguments) :
    AllOrNothing (SequenceMethod.index items k a) := by
  refine lift_bind fun _ _ => ?_
  split
  · refine lift_bind fun _ _ => lift_bind fun _ _ => bind .heap fun h => ?_
    split
    · exact of_quiet (.newInt _)
    · exact throw _
  · exact throw _

theorem count (items : List Value) (a : Arguments) :
    AllOrNothing (SequenceMethod.count items a) := by
  refine lift_bind fun _ _ => ?_
  split
  · exact bind .heap fun h => of_quiet (.newInt _)
  · exact throw _

theorem popItem (r : Ref .list) (i : Int64) : AllOrNothing (SequenceMethod.pop r i) := by
  refine bind (.read _) fun size => ?_
  dsimp only
  split
  · exact throw _
  · refine lift_bind fun position _ => bind (.read _) fun v => ?_
    split
    · exact of_write _ _
    · exact throw _

theorem removeItem (r : Ref .list) (v : Value) : AllOrNothing (SequenceMethod.remove r v) := by
  refine bind .heap fun h => ?_
  split
  · exact of_neverFails (.modifyHeap _)
  · exact throw _

theorem callList (apply : Function.Apply) (r : Ref .list) {m : Method} (hm : m ≠ .sort)
    (a : Arguments) : AllOrNothing (SequenceMethod.callList apply r m a) := by
  cases m with
  | append => exact lift_bind fun _ _ => of_write _ _
  | extend =>
    refine lift_bind fun _ one => ?_
    exact (forM (extendList r) (length_of_plain one)).and_then fun _ => .pure _
  | clear => exact lift_bind fun _ _ => of_write _ _
  | count => exact bind (.read _) fun items => count items a
  | index => exact bind (.read _) fun items => index items _ a
  | pop => exact lift_bind fun _ _ => lift_bind fun i _ => popItem r _
  | insert =>
    refine lift_bind fun _ _ => lift_bind fun i _ => ?_
    split
    · exact bind (.read _) fun _ => of_write _ _
    · exact throw _
  | remove =>
    refine lift_bind fun _ one => ?_
    exact (forM (removeItem r) (length_of_plain one)).and_then fun _ => .pure _
  | reverse => exact lift_bind fun _ _ => bind (.read _) fun _ => of_write _ _
  | sort => exact absurd rfl hm
  | copy => exact lift_bind fun _ _ => bind (.read _) fun items => of_neverFails (.newList items)
  | _ => exact throw _

-- ---------------------------------------------------------------------------
-- Methods of sets
-- ---------------------------------------------------------------------------

theorem update (r : Ref .set) (source : Value) : AllOrNothing (SetMethod.update r source) :=
  bind (.keysOf source) fun _ => of_neverFails (.modifyHeap _)

theorem discard (r : Ref .set) (v : Value) : AllOrNothing (SetMethod.discard r v) :=
  lift_bind fun _ _ => bind (.read _) fun _ => of_write _ _

/-- A missing element is looked for by removing it, which changes nothing. -/
theorem remove (r : Ref .set) (v : Value) : AllOrNothing (SetMethod.remove r v) := by
  intro s e t run
  cases hk : Key.ofValue v with
  | error c =>
    have failed : (SetMethod.discard r v).runOn s = (.error (.cause c), s) :=
      runOn_bind_of_error (runOn_lift_of_error hk s) _
    cases (runOn_bind_of_error failed _).symm.trans run
    exact Heap.unchanged_of_contents rfl
  | ok key =>
    have discarded : (SetMethod.discard r v).runOn s = (.ok ((s.heap.set r).contains key),
        { s with heap := s.heap.modifySet r (·.erase key) }) :=
      runOn_bind_of_ok (runOn_lift_of_ok hk s) _
    rw [SetMethod.remove, runOn_bind_of_ok discarded] at run
    cases absent : (s.heap.set r).contains key with
    | true =>
      rw [absent] at run
      cases run
    | false =>
      rw [absent] at run
      cases run
      rw [Heap.modifySet_eq, Keyed.erase_of_not_contains absent]
      exact s.heap.unchanged_putSet r

theorem pop (r : Ref .set) : AllOrNothing (SetMethod.pop r) := by
  refine bind (.read _) fun keys => ?_
  split
  · exact throw _
  · exact of_write _ _

theorem callSet (r : Ref .set) {m : Method} (a : Arguments)
    (one : m = .update → a.positional.length ≤ 1) : AllOrNothing (SetMethod.call r m a) := by
  have each {g : Value → Action Unit} (hg : ∀ v, AllOrNothing (g v))
      (one : a.positional.length ≤ 1) : AllOrNothing (do a.positional.forM g; return Value.none) :=
    (forM hg one).and_then fun _ => .pure _
  cases m with
  | add =>
    refine lift_bind fun _ one => each (fun v => ?_) (length_of_plain one)
    exact lift_bind fun _ _ => of_neverFails (.modifyHeap _)
  | discard =>
    refine lift_bind fun _ one => each (fun v => ?_) (length_of_plain one)
    exact (discard r v).and_then fun _ => .pure _
  | remove => exact lift_bind fun _ one => each (remove r) (length_of_plain one)
  | update => exact lift_bind fun _ _ => each (update r) (one rfl)
  | clear => exact lift_bind fun _ _ => of_write _ _
  | copy => exact lift_bind fun _ _ => bind (.read _) fun _ => of_neverFails (.newSet _)
  | pop => exact lift_bind fun _ _ => pop r
  | _ => exact throw _

-- ---------------------------------------------------------------------------
-- Methods of bytearrays
-- ---------------------------------------------------------------------------

theorem callBytearray (r : Ref .bytearray) (m : Method) (a : Arguments) :
    AllOrNothing (BytesMethod.callMutable r m a) := by
  unfold BytesMethod.callMutable
  split
  · exact bind (.read _) fun data => of_quiet (.decode data _ a)
  · exact bind (.read _) fun data => lift_bind fun _ _ => of_quiet (.newText _)
  · exact lift_bind fun _ _ => lift_bind fun _ _ => of_write _ _
  · exact lift_bind fun _ _ => bind (.bytesOf _) fun _ => of_write _ _
  · exact lift_bind fun _ _ => of_write _ _
  · exact lift_bind fun _ _ => of_neverFails (.pure _)
  · exact lift_bind fun _ _ => of_neverFails (.pure _)
  · exact lift_bind fun _ _ => of_neverFails (.pure _)
  · exact throw _

-- ---------------------------------------------------------------------------
-- Methods of dicts
-- ---------------------------------------------------------------------------

theorem popKey (r : Ref .dict) (k : Value) (fallback : Option Value) :
    AllOrNothing (DictMethod.pop r k fallback) := by
  refine lift_bind fun key _ => bind (.read _) fun t => ?_
  split
  · exact of_write _ _
  · exact of_neverFails (.pure _)
  · exact throw _

theorem setDefault (r : Ref .dict) (k v : Value) : AllOrNothing (DictMethod.setDefault r k v) := by
  refine lift_bind fun key _ => bind (.read _) fun t => ?_
  split
  · exact of_neverFails (.pure _)
  · exact of_write _ _

/-- An update without a source merges keywords alone, and one with several is
refused. -/
theorem updateDict (r : Ref .dict) {a : Arguments} (other : a.positional.length ≠ 1) :
    AllOrNothing (DictMethod.call r .update a) := by
  refine lift_bind fun _ given => ?_
  match hp : a.positional with
  | [] =>
    refine of_neverFails (.bind (.pure _) fun _ => ?_)
    exact .bind (.putAll r a.keywords) fun _ => .pure _
  | [v] => exact absurd (congrArg List.length hp) other
  | v :: w :: rest =>
    rw [Arguments.arity, hp] at given
    cases given

theorem callDict (r : Ref .dict) {m : Method} (a : Arguments)
    (other : m = .update → a.positional.length ≠ 1) : AllOrNothing (DictMethod.call r m a) := by
  have view (part : Part) (m : Method) : AllOrNothing (DictMethod.view r part m a) :=
    lift_bind fun _ _ => of_quiet (.newView _ _)
  cases m with
  | get =>
    refine lift_bind fun _ _ => ?_
    split
    · exact bind (.lookup r _) fun _ => of_neverFails (.pure _)
    · exact throw _
  | keys => exact view .keys _
  | values => exact view .values _
  | items => exact view .items _
  | pop =>
    refine lift_bind fun _ _ => ?_
    split
    · exact popKey r _ _
    · exact throw _
  | setDefault =>
    refine lift_bind fun _ _ => ?_
    split
    · exact setDefault r _ _
    · exact throw _
  | update => exact updateDict r (other rfl)
  | clear => exact lift_bind fun _ _ => of_write _ _
  | copy => exact lift_bind fun _ _ => bind (.read _) fun _ => of_neverFails (.newDict _)
  | _ => exact throw _

end Action.AllOrNothing

end ObjectModel
