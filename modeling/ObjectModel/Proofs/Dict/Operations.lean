import ObjectModel.Proofs.Dict.Update

/-!
# Operations on dicts follow the specification

Each operation, run on a heap whose dicts are given as association lists, ends
as the specification says and leaves the dicts as it says. `Action.Gives` is that
relation; there is one lemma for each operation.
-/

namespace ObjectModel

open ObjectModel.Action World DictMethod

namespace Action

variable {α β : Type}

/-- The action ends in `x` and leaves the dicts `ds`. -/
def Gives (a : Action α) (s : Session) (x : Except Fault α) (ds : Dicts) : Prop :=
  ∃ s', a.runOn s = (x, s') ∧ s'.heap.assocs = ds

theorem Gives.bind {a : Action α} {f : α → Action β} {s s' : Session} {x : α}
    {y : Except Fault β} {ds : Dicts} (ha : a.runOn s = (.ok x, s')) (hf : Gives (f x) s' y ds) :
    Gives (a >>= f) s y ds := by
  obtain ⟨s'', run, contents⟩ := hf
  refine ⟨s'', ?_, contents⟩
  rw [runOn_bind, ha]
  exact run

theorem Gives.readDict {f : Table → Action β} {s : Session} {r : Ref .dict} {y : Except Fault β}
    {ds : Dicts} (hf : Gives (f (s.heap.dict r)) s y ds) : Gives (readDict r >>= f) s y ds :=
  .bind rfl hf

theorem Gives.key {f : Key → Action β} {s : Session} {k : Value} {key : Key}
    {y : Except Fault β} {ds : Dicts} (hk : Key.ofValue k = .ok key) (hf : Gives (f key) s y ds) :
    Gives (liftM (Key.ofValue k) >>= f) s y ds := by
  rw [hk]
  exact .bind rfl hf

/-- What follows changes neither the outcome nor the dicts. -/
theorem Gives.map {a : Action α} {f : α → β} {s : Session} {x : Except Fault α} {ds : Dicts}
    (ha : Gives a s x ds) : Gives (a >>= fun v => pure (f v)) s (x.map f) ds := by
  obtain ⟨s', run, contents⟩ := ha
  refine ⟨s', ?_, contents⟩
  rw [runOn_bind, run]
  cases x <;> rfl

theorem Gives.map_map {γ : Type} {a : Action α} {f : α → β} {g : γ → α} {s : Session}
    {x : Except Fault γ} {ds : Dicts} (ha : Gives a s (x.map g) ds) :
    Gives (a >>= fun v => pure (f v)) s (x.map fun v => f (g v)) ds := by
  have mapped := ha.map (f := f)
  cases x <;> exact mapped

theorem gives_pure (x : α) (s : Session) : Gives (pure x) s (.ok x) s.heap.assocs :=
  ⟨s, rfl, rfl⟩

theorem gives_throw (f : Fault) (s : Session) :
    Gives (throw f : Action α) s (.error f) s.heap.assocs := ⟨s, rfl, rfl⟩

theorem gives_newDict (t : Table) (s : Session) :
    Gives (newDict t) s (.ok (.dict ⟨s.heap.assocs.length⟩)) (s.heap.assocs ++ [t.assoc]) := by
  rw [Heap.length_assocs, ← Heap.assocs_push]
  exact ⟨_, rfl, rfl⟩

end Action

theorem Value.Keyable.exists_ofValue {k : Value} (h : k.Keyable) :
    ∃ key, Key.ofValue k = .ok key ∧ key.value = k := by
  obtain ⟨⟨n, hash⟩, -⟩ := h
  exact ⟨⟨k, n, hash⟩, Key.ofValue_value ⟨k, n, hash⟩, rfl⟩

section
variable {w : World} {s : Session} {r : Ref .dict} {k v : Value}

/-- The world models the heap, and no key of a dict nests a bound method. -/
structure Tame (w : World) (s : Session) : Prop where
  models : w.Models s.heap
  free : s.heap.assocs.MethodFree

namespace Tame

theorem table_free (tame : Tame w s) (r : Ref .dict) : (s.heap.dict r).assoc.MethodFree :=
  Heap.read_assocs s.heap r ▸ tame.free.read r

theorem find?_eq (tame : Tame w s) (r : Ref .dict) {key : Key} (hk : w.Has key) :
    (s.heap.dict r).find? key = (s.heap.assocs.read r).lookup key.value := by
  rw [Keyed.find?_eq_lookup (tame.models.dict r) (tame.table_free r) hk, Heap.read_assocs]

theorem contains_eq (tame : Tame w s) (r : Ref .dict) {key : Key} (hk : w.Has key) :
    (s.heap.dict r).contains key = ((s.heap.assocs.read r).lookup key.value).isSome := by
  rw [Keyed.contains_eq_lookup (tame.models.dict r) (tame.table_free r) hk, Heap.read_assocs]

theorem gives_insert (tame : Tame w s) (hr : w.Has (Value.dict r)) {key : Key} (hk : w.Has key)
    (v : Value) : Gives (modifyDict r (·.insert key v)) s (.ok ())
      (s.heap.assocs.change r (·.write key.value v)) :=
  ⟨_, rfl, assocs_insert tame.models hr tame.free hk v⟩

theorem gives_erase (tame : Tame w s) (hr : w.Has (Value.dict r)) {key : Key} (hk : w.Has key) :
    Gives (modifyDict r (·.erase key)) s (.ok ())
      (s.heap.assocs.change r (·.delete key.value)) :=
  ⟨_, rfl, Heap.assocs_modifyDict (tame.models.index_lt hr rfl)
    (Keyed.assoc_erase (tame.models.dict r) (tame.table_free r) hk)⟩

theorem gives_putAll (tame : Tame w s) (hr : w.Has (Value.dict r)) {t : Table} (ht : w.Has t)
    (free : t.assoc.MethodFree) :
    Gives (putAll r t) s (.ok ()) (s.heap.assocs.change r (·.writeAll t.assoc)) :=
  ⟨_, rfl, Heap.assocs_modifyDict (tame.models.index_lt hr rfl)
    (Keyed.assoc_merge (tame.models.dict r) (tame.table_free r) ht free)⟩

-- ---------------------------------------------------------------------------
-- Subscripts
-- ---------------------------------------------------------------------------

theorem gives_setItem (tame : Tame w s) (hr : w.Has (Value.dict r)) (hk : w.Has k)
    (fits : k.Keyable) (v : Value) :
    Gives (setItem (.dict r) k v) s (.ok ()) (s.heap.assocs.change r (·.write k v)) := by
  obtain ⟨key, hkey, rfl⟩ := fits.exists_ofValue
  exact .key hkey (tame.gives_insert hr hk v)

theorem gives_getItem (tame : Tame w s) (r : Ref .dict) (hk : w.Has k) (fits : k.Keyable) :
    Gives (getItem (.dict r) k) s ((s.heap.assocs.read r).getOr k none) s.heap.assocs := by
  obtain ⟨key, hkey, rfl⟩ := fits.exists_ofValue
  refine .readDict (.key hkey ?_)
  rw [tame.find?_eq r hk, Assoc.getOr]
  cases (s.heap.assocs.read r).lookup key.value with
  | none => exact gives_throw _ s
  | some v => exact gives_pure v s

theorem gives_delItem (tame : Tame w s) (hr : w.Has (Value.dict r)) (hk : w.Has k)
    (fits : k.Keyable) :
    Gives (delItem (.dict r) k) s (((s.heap.assocs.read r).getOr k none).map fun _ => ())
      (s.heap.assocs.change r (·.delete k)) := by
  obtain ⟨key, hkey, rfl⟩ := fits.exists_ofValue
  refine .key hkey (.readDict ?_)
  rw [tame.contains_eq r hk, Assoc.getOr, Option.or_none]
  cases found : (s.heap.assocs.read r).lookup key.value with
  | none =>
    rw [Dicts.change_eq_self (Assoc.delete_of_lookup_eq_none found)]
    exact gives_throw _ s
  | some v => exact tame.gives_erase hr hk

theorem runOn_contains (tame : Tame w s) (r : Ref .dict) (hk : w.Has k) (fits : k.Keyable) :
    (contains (.dict r) k).runOn s = (.ok ((s.heap.assocs.read r).lookup k).isSome, s) := by
  obtain ⟨key, hkey, rfl⟩ := fits.exists_ofValue
  have run : (contains (.dict r) key.value).runOn s = (.ok ((s.heap.dict r).contains key), s) := by
    simp only [contains, hkey]
    rfl
  rw [run, tame.contains_eq r hk]

theorem runOn_length (s : Session) (r : Ref .dict) {n : Int64}
    (h : n.toInt = (s.heap.assocs.read r).length) :
    (length (.dict r)).runOn s = (.ok n, s) := by
  rw [Heap.read_assocs, Keyed.length_assoc] at h
  have word : wordOf (s.heap.dict r).size = pure n := by
    rw [wordOf, ← h, Checked.narrow?_toInt]
    rfl
  simp only [length, runOn_bind, runOn_heap, Heap.length?, word, runOn_pure]

-- ---------------------------------------------------------------------------
-- Methods
-- ---------------------------------------------------------------------------

theorem gives_callMethod (tame : Tame w s) (hr : w.Has (Value.dict r)) (name : String) (m : Method)
    (named : Method.ofName? (String.ofList name.toList) = some m)
    (supported : DictMethod.supports m = true) {a : Arguments} {x : Except Fault Value} {ds : Dicts}
    (called : ∀ w', w ≤ w' → Tame w' s.tick → Gives (DictMethod.call r m a) s.tick x ds) :
    Gives (callMethod (.dict r) name.toList a) s x ds := by
  have found : (Method.ofName? (String.ofList name.toList)).filter (Value.dict r).supports =
      some m := by
    rw [named]
    exact Option.filter_some_pos supported
  obtain ⟨w', le, models, -⟩ := (Safe.newMethod hr m).later tame.models rfl
  obtain ⟨s', run, contents⟩ := called w' le ⟨models, tame.free⟩
  exact ⟨s', (runOn_callMethod rfl found a s).trans run, contents⟩

theorem gives_get (tame : Tame w s) (r : Ref .dict) (hk : w.Has k) (fits : k.Keyable)
    (fallback : Option Value) :
    Gives (DictMethod.get r k fallback) s
      (.ok (((s.heap.assocs.read r).lookup k).getD (fallback.getD .none))) s.heap.assocs := by
  obtain ⟨key, hkey, rfl⟩ := fits.exists_ofValue
  have found : Gives (lookup r key.value) s (.ok ((s.heap.assocs.read r).lookup key.value))
      s.heap.assocs := by
    refine .key hkey (.readDict ?_)
    rw [tame.find?_eq r hk]
    exact gives_pure _ s
  exact found.map

theorem gives_pop (tame : Tame w s) (hr : w.Has (Value.dict r)) (hk : w.Has k)
    (fits : k.Keyable) (fallback : Option Value) :
    Gives (pop r k fallback) s ((s.heap.assocs.read r).getOr k fallback)
      (s.heap.assocs.change r (·.delete k)) := by
  obtain ⟨key, hkey, rfl⟩ := fits.exists_ofValue
  refine .key hkey (.readDict ?_)
  rw [tame.find?_eq r hk, Assoc.getOr]
  cases found : (s.heap.assocs.read r).lookup key.value with
  | none =>
    rw [Dicts.change_eq_self (Assoc.delete_of_lookup_eq_none found)]
    cases fallback with
    | none => exact gives_throw _ s
    | some v => exact gives_pure v s
  | some v =>
    obtain ⟨s', run, contents⟩ := tame.gives_erase hr hk
    exact .bind run (contents ▸ gives_pure v s')

theorem gives_setDefault (tame : Tame w s) (hr : w.Has (Value.dict r)) (hk : w.Has k)
    (fits : k.Keyable) (v : Value) :
    Gives (setDefault r k v) s (.ok (((s.heap.assocs.read r).lookup k).getD v))
      (s.heap.assocs.change r (·.writeNew k v)) := by
  obtain ⟨key, hkey, rfl⟩ := fits.exists_ofValue
  refine .key hkey (.readDict ?_)
  rw [tame.find?_eq r hk]
  cases found : (s.heap.assocs.read r).lookup key.value with
  | none =>
    have new : s.heap.assocs.change r (·.writeNew key.value v) =
        s.heap.assocs.change r (·.write key.value v) :=
      Dicts.change_congr (by simp [Assoc.writeNew, found])
    obtain ⟨s', run, contents⟩ := tame.gives_insert hr hk v
    rw [new, ← contents]
    exact .bind run (gives_pure v s')
  | some u =>
    rw [Dicts.change_eq_self (by simp [Assoc.writeNew, found])]
    exact gives_pure u s

theorem gives_clear (tame : Tame w s) (hr : w.Has (Value.dict r)) :
    Gives (DictMethod.call r .clear ⟨[], ∅⟩) s (.ok .none)
      (s.heap.assocs.change r fun _ => []) :=
  ⟨_, rfl, Heap.assocs_putDict (tame.models.index_lt hr rfl) Keyed.assoc_empty⟩

theorem gives_copy (s : Session) (r : Ref .dict) :
    Gives (DictMethod.call r .copy ⟨[], ∅⟩) s (.ok (.dict ⟨s.heap.assocs.length⟩))
      (s.heap.assocs ++ [s.heap.assocs.read r]) := by
  rw [Heap.read_assocs]
  exact gives_newDict (s.heap.dict r) s

-- ---------------------------------------------------------------------------
-- Merging
-- ---------------------------------------------------------------------------

theorem gives_update (tame : Tame w s) (hr : w.Has (Value.dict r)) {source : UpdateSource}
    (honest : source.Honest r s) (has : w.Has source.arguments)
    (free : (source.pairs s.heap.assocs).MethodFree) {keywords : Table} (hk : w.Has keywords)
    (hfree : keywords.assoc.MethodFree) :
    Gives (DictMethod.call r .update ⟨source.arguments, keywords⟩) s
      (source.ends.map fun _ => .none) (s.heap.assocs.change r fun t =>
        (t.writeAll (source.pairs s.heap.assocs)).writeAll
          (source.ends.toOption.elim [] fun _ => keywords.assoc)) := by
  obtain ⟨s', w', run, le, models, contents⟩ := source.runs honest tame.models hr has tame.free free
  have checked : (liftM (Arguments.arity ⟨source.arguments, keywords⟩ "update" 0 1) :
      Action Unit).runOn s = (.ok (), s) := by cases source <;> rfl
  refine .bind checked ?_
  cases ends : source.ends with
  | error f =>
    refine ⟨s', ?_, contents⟩
    rw [runOn_bind, run, ends]
    rfl
  | ok =>
    rw [ends] at run
    have later : Tame w' s' := ⟨models, contents ▸ tame.free.change fun t ht => ht.writeAll free⟩
    obtain ⟨s'', put, contents'⟩ :=
      later.gives_putAll (hr.mono le) (World.Has.mono (x := keywords) hk le) hfree
    rw [contents, Dicts.change_change] at contents'
    exact .bind run (.bind put (contents' ▸ gives_pure _ s''))

theorem gives_merge (tame : Tame w s) (r r' : Ref .dict) :
    Gives (binary .or (.dict r) (.dict r')) s (.ok (.dict ⟨s.heap.assocs.length⟩))
      (s.heap.assocs ++ [(s.heap.assocs.read r).writeAll (s.heap.assocs.read r')]) := by
  rw [Heap.read_assocs, Heap.read_assocs, ← Keyed.assoc_merge (tame.models.dict r)
    (tame.table_free r) (tame.models.dict r') (tame.table_free r')]
  exact gives_newDict _ s

theorem gives_operands (s : Session) (r : Ref .dict) (plain : ∀ r', v ≠ .dict r') :
    Gives (binary .or (.dict r) v) s (.error (.cause (.operands "|" .dict v.kind)))
      s.heap.assocs := by
  cases v with
  | dict r' => exact absurd rfl (plain r')
  | _ => exact gives_throw _ s

end Tame

end

-- ---------------------------------------------------------------------------
-- Displays
-- ---------------------------------------------------------------------------

/-- The keys that a part of a display gives. -/
def DictMethod.DisplayItem.keys : DisplayItem → List Value
  | .pair k _ => [k]
  | .unpack _ => []

section
variable {w : World} {s : Session}

theorem Tame.runOn_tableOf (tame : Tame w s) {t : Table} (ht : w.Has t)
    (free : t.assoc.MethodFree) {items : List DisplayItem} (has : w.Has items)
    (fits : ∀ k ∈ items.flatMap DisplayItem.keys, k.Keyable) :
    ∃ x, (tableOf t items).runOn s = (x, s) ∧
      x.map Keyed.assoc = s.heap.assocs.display t.assoc items := by
  induction items generalizing t with
  | nil => exact ⟨_, rfl, rfl⟩
  | cons item items ih =>
    obtain ⟨hi, hrest⟩ := List.forall_mem_cons.1 has
    rw [List.flatMap_cons, List.forall_mem_append] at fits
    cases item with
    | pair k v =>
      have hk := hi k (List.mem_cons_self ..)
      have hv := hi v (by simp [DisplayItem.parts])
      have keyable := fits.1 k (List.mem_singleton_self k)
      obtain ⟨key, hkey, rfl⟩ := keyable.exists_ofValue
      have written := Keyed.assoc_insert ht free hk v
      obtain ⟨x, run, hx⟩ := ih (Keyed.has_insert ht hk hv) (written ▸ free.write keyable.2) hrest
        fits.2
      refine ⟨x, ?_, by rw [hx, written, Dicts.display]⟩
      rw [tableOf, hkey]
      exact run
    | unpack source =>
      cases source with
      | dict r =>
        have merged := Keyed.assoc_merge ht free (tame.models.dict r) (tame.table_free r)
        obtain ⟨x, run, hx⟩ := ih (Keyed.has_merge ht (tame.models.dict r))
          (merged ▸ free.writeAll (tame.table_free r)) hrest fits.2
        refine ⟨x, run, ?_⟩
        rw [hx, merged, Dicts.display, Heap.read_assocs]
      | _ => exact ⟨_, rfl, rfl⟩

theorem Tame.gives_ofDisplay (tame : Tame w s) {items : List DisplayItem} (has : w.Has items)
    (fits : ∀ k ∈ items.flatMap DisplayItem.keys, k.Keyable) :
    Gives (ofDisplay items) s
      ((s.heap.assocs.display [] items).map fun _ => .dict ⟨s.heap.assocs.length⟩)
      (s.heap.assocs ++ (s.heap.assocs.display [] items).toOption.toList) := by
  have nil_free : (∅ : Table).assoc.MethodFree := fun _ he => by cases he
  obtain ⟨x, run, hx⟩ := tame.runOn_tableOf Keyed.has_empty nil_free has fits
  rw [Keyed.assoc_empty] at hx
  rw [← hx]
  cases x with
  | ok t => exact .bind run (gives_newDict t s)
  | error f =>
    refine ⟨s, ?_, by simp [Except.map, Except.toOption]⟩
    rw [ofDisplay, runOn_bind, run]
    rfl

end

end ObjectModel
