import ObjectModel.Attribute
import ObjectModel.Proofs.World.Iteration

/-!
# Subscripts, capabilities and operators are safe

Asking a value keeps the world. What an operator or a subscript yields is one of
its operands, is held by one, or is made anew. Comparisons and formats fail
without a value.

Main statements: `Safe.getItem`, `Keeps.setItem`, `Keeps.delItem`,
`Keeps.contains`, `Keeps.compare`, `Safe.unary`, `Safe.binary`, `Safe.inPlace`.
-/

namespace ObjectModel

open ObjectModel.Action

-- ---------------------------------------------------------------------------
-- Faults without values
-- ---------------------------------------------------------------------------

theorem Value.isPlain_of_compareAllWith {equal : Value → Value → Bool}
    {leaf : Value → Value → Except Fault Bool} {op : Comparison} {xs ys : List Value} {f : Fault}
    (plain : ∀ x ∈ xs, ∀ y, x.compareWith equal leaf op y = .error f → f.isPlain = true)
    (h : compareAllWith equal leaf op xs ys = .error f) : f.isPlain = true := by
  induction xs generalizing ys with
  | nil => cases ys <;> cases h
  | cons x xs ih =>
    cases ys with
    | nil => cases h
    | cons y ys =>
      rw [compareAllWith] at h
      split at h
      · exact ih (fun x hx => plain x (List.mem_cons_of_mem _ hx)) h
      · exact plain x (List.mem_cons_self ..) y h

theorem Value.isPlain_of_compareWith {equal : Value → Value → Bool}
    {leaf : Value → Value → Except Fault Bool} {op : Comparison} {a b : Value} {f : Fault}
    (plain : ∀ a b, leaf a b = .error f → f.isPlain = true)
    (h : a.compareWith equal leaf op b = .error f) : f.isPlain = true := by
  induction a using inductParts generalizing b with
  | step a ih =>
    cases a with
    | tuple tag xs =>
      cases b with
      | tuple tag' ys => exact isPlain_of_compareAllWith (fun x hx y => ih x hx) h
      | _ => exact plain _ _ h
    | _ => exact plain _ _ h

namespace Heap

variable {h : Heap} {f : Fault}

theorem isPlain_of_compareLeaf {op : Comparison} {a b : Value}
    (hf : h.compareLeaf op a b = .error f) : f.isPlain = true := by
  unfold compareLeaf at hf
  dsimp only at hf
  repeat' split at hf
  all_goals cases hf
  all_goals rfl

theorem isPlain_of_compare {op : Comparison} {a b : Value} (hf : h.compare op a b = .error f) :
    f.isPlain = true := by
  have stored (n : Nat) : ∀ a b, h.compareStored op n a b = .error f → f.isPlain = true := by
    induction n with
    | zero => intro a b hf; cases hf; rfl
    | succ n ih =>
      intro a b hf
      cases a with
      | list r =>
        cases b with
        | list s =>
          exact Value.isPlain_of_compareAllWith (fun x _ y => Value.isPlain_of_compareWith ih) hf
        | _ => exact isPlain_of_compareLeaf hf
      | _ => exact isPlain_of_compareLeaf hf
  exact Value.isPlain_of_compareWith (stored _) hf

end Heap

theorem Percent.isPlain_of_render {h : Heap} {pieces : List Percent.Piece} {items : List Value}
    {f : Fault} (hf : Percent.render h pieces items = .error f) : f.isPlain = true := by
  induction pieces generalizing items f with
  | nil => cases items <;> cases hf; rfl
  | cons piece rest ih =>
    have tail {items : List Value} {g : List Char → List Char} {f : Fault}
        (hf : (render h rest items).map g = .error f) : f.isPlain = true := by
      cases hr : render h rest items with
      | ok text => rw [hr] at hf; cases hf
      | error e => rw [hr] at hf; cases hf; exact ih hr
    cases piece with
    | literal c => exact tail hf
    | conversion zero width c =>
      cases items with
      | nil => cases hf; rfl
      | cons v items =>
        simp only [render] at hf
        split at hf
        · exact tail hf
        · cases hf; rfl
    | _ => cases hf; rfl

namespace World

variable {w : World}

-- ---------------------------------------------------------------------------
-- Asking values
-- ---------------------------------------------------------------------------

namespace Keeps

theorem compare (op : Comparison) (a b : Value) : w.Keeps (compare op a b) := by
  unfold Action.compare
  refine heap_bind fun h _ => ?_
  cases hr : h.compare op a b with
  | ok answer => exact pure trivial
  | error f => exact throw (has_of_isPlain (Heap.isPlain_of_compare hr))

theorem truth (v : Value) : w.Keeps (truth v) := by
  unfold Action.truth
  exact heap_bind fun _ _ => pure trivial

theorem wordOf (n : Nat) : w.Keeps (wordOf n) := by
  unfold Action.wordOf
  cases Checked.narrow? n with
  | none => exact fail
  | some word => exact pure trivial

theorem length (v : Value) : w.Keeps (length v) :=
  heap_bind fun _ _ => by
    split
    · exact unimplemented
    · exact wordOf _

theorem indexValue (v : Value) : w.Keeps (indexValue v) := by
  unfold Action.indexValue
  split
  · exact pure trivial
  · exact unimplemented

theorem intValue (v : Value) : w.Keeps (intValue v) := by
  unfold Action.intValue
  split
  · exact pure trivial
  · exact unimplemented

theorem hash (v : Value) : w.Keeps (hash v) := lift fun _ _ => trivial

theorem format (v : Value) (spec : List Char) : w.Keeps (format v spec) := by
  unfold Action.format
  split
  · split
    · exact repr _
    · exact lift_gap fun _ _ _ _ => trivial
  · exact lift_gap fun _ _ _ _ => trivial
  · exact lift_gap fun _ _ _ _ => trivial
  · exact unimplemented

theorem anyEqual (xs : List Value) (v : Value) : w.Keeps (anyEqual xs v) :=
  heap_bind fun _ _ => pure trivial

theorem bytesContain (data : List UInt8) (v : Value) : w.Keeps (bytesContain data v) := by
  unfold Action.bytesContain
  split
  · exact lift_bind fun _ _ => pure trivial
  · exact heap_bind fun h _ => by
      split
      · exact pure trivial
      · exact fail

theorem contains (container v : Value) : w.Keeps (contains container v) := by
  unfold Action.contains
  split
  · split
    · exact pure trivial
    · exact fail
  · exact bytesContain _ v
  · exact bind (readBytearray _) fun _ _ => bytesContain _ v
  · exact anyEqual _ v
  · exact bind (readList _) fun _ _ => anyEqual _ v
  · exact bind (readDict _) fun _ _ => lift_bind fun _ _ => pure trivial
  · exact bind (readSet _) fun _ _ => lift_bind fun _ _ => pure trivial
  · exact pure trivial
  · exact bind (readDict _) fun _ _ => lift_bind fun _ _ => pure trivial
  · exact bind (readDict _) fun _ _ => anyEqual _ v
  · split
    · split
      · exact pure trivial
      · refine bind (readDict _) fun t _ => ?_
        split
        · exact equals _ _
        · exact pure trivial
    · exact pure trivial
  · exact unimplemented

-- ---------------------------------------------------------------------------
-- Subscripts
-- ---------------------------------------------------------------------------

theorem setItem {target key value : Value} (ht : w.Has target) (hk : w.Has key)
    (hv : w.Has value) : w.Keeps (setItem target key value) := by
  cases target with
  | list r =>
    refine lift_bind fun i _ => ?_
    cases i with
    | index i =>
      refine bind (readList r) fun items hi => lift_bind fun position _ => writeList ht ?_
      exact fun x hx => (List.mem_or_eq_of_mem_set hx).elim (hi x) fun he => he ▸ hv
    | slice => exact unimplemented
  | bytearray r =>
    refine lift_bind fun i _ => ?_
    cases i with
    | index i =>
      refine lift_bind fun b _ => bind (readBytearray r) fun data _ => lift_bind fun position _ => ?_
      exact writeBytearray ht _
    | slice => exact unimplemented
  | dict r =>
    exact lift_bind fun k hk' => modifyDict ht fun t hs =>
      Keyed.has_insert hs (Key.has_ofValue hk hk') hv
  | _ => exact unimplemented

theorem delItem {target key : Value} (ht : w.Has target) (hk : w.Has key) :
    w.Keeps (delItem target key) := by
  cases target with
  | list r =>
    refine lift_bind fun i _ => ?_
    cases i with
    | index i =>
      exact bind (listSize r) fun size _ => lift_bind fun position _ => eraseListItem ht position
    | slice => exact unimplemented
  | bytearray r =>
    refine lift_bind fun i _ => ?_
    cases i with
    | index i =>
      exact bind (readBytearray r) fun data _ => lift_bind fun position _ => writeBytearray ht _
    | slice => exact unimplemented
  | dict r =>
    refine lift_bind fun k _ => bind (readDict r) fun t _ => ?_
    split
    · exact modifyDict ht fun t hs => Keyed.has_erase hs k
    · exact throw hk
  | _ => exact unimplemented

end Keeps

theorem has_pick {what : String} {xs : List Value} {i : Int} {v : Value} (has : w.Has xs)
    (h : Subscript.pick what xs i = .ok v) : w.Has v := by
  unfold Subscript.pick at h
  cases hp : Subscript.position what i xs.length with
  | error c => rw [hp] at h; cases h
  | ok position =>
    simp only [hp, bind, Except.bind] at h
    split at h
    · next x hx =>
      cases h
      exact has _ (List.mem_of_getElem? hx)
    · cases h

theorem has_select {xs : List Value} (has : w.Has xs) (s : Slice) : w.Has (s.select xs) := by
  intro v hv
  simp only [Slice.select, Slice.Selection.pick, List.mem_filterMap] at hv
  obtain ⟨i, -, hi⟩ := hv
  rw [List.getElem?_toArray] at hi
  exact has v (List.mem_of_getElem? hi)

namespace Safe

theorem getItem {source key : Value} (hs : w.Has source) (hk : w.Has key) :
    w.Safe (getItem source key) := by
  cases source with
  | str tag t =>
    refine lift_bind fun i _ => ?_
    cases i with
    | index i => exact lift_bind fun c _ => newText _
    | slice => exact lift_bind fun s _ => newChars _
  | tuple tag items =>
    have has : w.Has items := fun _ => w.parts hs
    refine lift_bind fun i _ => ?_
    cases i with
    | index i => exact (Keeps.lift fun _ => has_pick has).safe
    | slice => exact lift_bind fun s _ => newTuple (has_select has s)
  | list r =>
    refine lift_bind fun i _ => ?_
    cases i with
    | index i =>
      exact (Keeps.readList r).and_then fun items has => (Keeps.lift fun _ => has_pick has).safe
    | slice =>
      exact lift_bind fun s _ => (Keeps.readList r).and_then fun items has =>
        newList (has_select has s)
  | bytes tag data =>
    refine lift_bind fun i _ => ?_
    cases i with
    | index i => exact lift_bind fun b _ => newByte b
    | slice => exact lift_bind fun s _ => newBytes _
  | bytearray r =>
    refine lift_bind fun i _ => ?_
    cases i with
    | index i =>
      exact (Keeps.readBytearray r).and_then fun data _ => lift_bind fun b _ => newByte b
    | slice =>
      exact lift_bind fun s _ => (Keeps.readBytearray r).and_then fun data _ => newBytearray _
  | range tag r =>
    refine lift_bind fun i _ => ?_
    cases i with
    | index i => exact lift_bind fun p _ => newInt _
    | slice =>
      refine lift_bind fun s _ => ?_
      split
      · exact newRange _
      · exact fail
  | dict r =>
    refine (Keeps.readDict r).and_then fun t ht => lift_bind fun k _ => ?_
    split
    · next hf => exact pure (Keyed.has_find? ht hf)
    · exact throw hk
  | _ => exact unimplemented

end Safe

end World

end ObjectModel
