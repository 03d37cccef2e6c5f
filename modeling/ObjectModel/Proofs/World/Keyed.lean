import ObjectModel.Proofs.World.Basic

/-!
# Keyed contents in a world

Changing keyed contents brings in no keys and values but those given.
-/

namespace ObjectModel

variable {β : Type} [Carries β] {w : World}

namespace Keyed

variable {t : Keyed β}

theorem has_empty : w.Has (∅ : Keyed β) := fun _ he => by cases he

theorem has_insert (ht : w.Has t) {key : Key} {value : β} (hk : w.Has key) (hv : w.Has value) :
    w.Has (t.insert key value) := by
  cases hp : t.place? key with
  | none =>
    have absent : t.contains key = false := by simp [contains, hp]
    intro e he
    rw [entries_insert_of_not_contains value absent] at he
    rcases List.mem_append.1 he with he | he
    · exact ht e he
    · rw [List.mem_singleton.1 he]
      exact ⟨hk, hv⟩
  | some i =>
    intro e he
    rw [entries_insert_of_place value hp] at he
    obtain ⟨j, hj, rfl⟩ := List.getElem_of_mem he
    rw [List.getElem_modify]
    have hj' : j < t.entries.length := by simpa using hj
    have hold := ht _ (List.getElem_mem hj')
    split
    · exact ⟨hold.1, hv⟩
    · exact hold

theorem has_insertAll (ht : w.Has t) {es : List (Key × β)} (hes : w.Has es) :
    w.Has (t.insertAll es) := by
  induction es generalizing t with
  | nil => exact ht
  | cons e es ih =>
    obtain ⟨he, hes⟩ := List.forall_mem_cons.1 hes
    exact ih (has_insert ht he.1 he.2) hes

theorem has_ofEntries {es : List (Key × β)} (hes : w.Has es) : w.Has (ofEntries es) :=
  has_insertAll has_empty hes

theorem has_merge {s : Keyed β} (ht : w.Has t) (hs : w.Has s) : w.Has (t.merge s) :=
  has_insertAll ht hs

theorem has_erase (ht : w.Has t) (key : Key) : w.Has (t.erase key) := by
  cases hp : t.place? key with
  | none => rwa [erase_of_not_contains (by simp [contains, hp])]
  | some i =>
    intro e he
    rw [entries_erase_of_place hp] at he
    exact ht e (List.mem_of_mem_eraseIdx he)

theorem has_entryAt? (ht : w.Has t) {place : Nat} {e : Key × β} (h : t.entryAt? place = some e) :
    w.Has e := by
  rw [entryAt?_eq] at h
  exact ht e (List.mem_of_getElem? h)

theorem has_keys (ht : w.Has t) : w.Has t.keys := fun k hk => by
  obtain ⟨e, he, rfl⟩ := List.mem_map.1 hk
  exact (ht e he).1

theorem has_values (ht : w.Has t) : w.Has t.values := fun v hv => by
  obtain ⟨e, he, rfl⟩ := List.mem_map.1 hv
  exact (ht e he).2

theorem has_find? (ht : w.Has t) {key : Key} {v : β} (h : t.find? key = some v) : w.Has v :=
  has_values ht v (mem_values_of_find? h)

end Keyed

theorem Table.has_findText? {t : Table} (ht : w.Has t) {name : String} {v : Value}
    (h : t.findText? name = some v) : w.Has v := by
  obtain ⟨e, he, hv⟩ := List.exists_of_findSome?_eq_some h
  split at hv
  · split at hv
    · cases hv
      exact (ht e he).2
    · cases hv
  · cases hv

theorem Key.has_ofValue {v : Value} (hv : w.Has v) {k : Key} (h : Key.ofValue v = .ok k) :
    w.Has k := by
  unfold Key.ofValue at h
  split at h
  · cases h
    exact hv
  · cases h

namespace KeySet

variable {s t : KeySet}

theorem has_addAll (hs : w.Has s) {keys : List Key} (hk : w.Has keys) :
    w.Has (s.addAll keys) := by
  induction keys generalizing s with
  | nil => exact hs
  | cons k ks ih =>
    obtain ⟨hk, hks⟩ := List.forall_mem_cons.1 hk
    exact ih (Keyed.has_insert hs hk trivial) hks

theorem has_ofKeys {keys : List Key} (hk : w.Has keys) : w.Has (ofKeys keys) :=
  has_addAll Keyed.has_empty hk

theorem has_filter (hs : w.Has s) (p : Key → Bool) : w.Has (s.filter p) :=
  Keyed.has_ofEntries fun e he => hs e (List.mem_filter.1 he).1

theorem has_retain (hs : w.Has s) (p : Key → Bool) : w.Has (s.retain p) := by
  unfold retain
  induction s.keys with
  | nil => exact hs
  | cons key keys ih =>
    rw [List.foldr_cons]
    split
    · exact ih
    · exact Keyed.has_erase ih key

theorem has_union (hs : w.Has s) (ht : w.Has t) : w.Has (s.union t) :=
  has_addAll hs (Keyed.has_keys ht)

theorem has_symmDiff (hs : w.Has s) (ht : w.Has t) : w.Has (s.symmDiff t) :=
  has_union (has_filter hs _) (has_filter ht _)

end KeySet

end ObjectModel
