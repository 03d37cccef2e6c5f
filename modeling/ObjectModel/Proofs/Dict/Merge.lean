import ObjectModel.Proofs.Equality.Keyed
import ObjectModel.Proofs.World.Keyed

/-!
# Merging keyed contents

What a table holds is known by its keys, in their order, and by what is found under each of
them. Merging appends the keys that are new and finds in the second table first. All
laws of merging follow from these two facts, whichever key stands for keys that are the
same.

Main statements: `keys_merge` and `find?_merge`; `entries_merge`, `entries_merge_assoc`.
-/

namespace ObjectModel.Keyed

variable {β : Type} {t u v : Keyed β} {k l : Key}

-- ---------------------------------------------------------------------------
-- Keys
-- ---------------------------------------------------------------------------

theorem contains_insert (t : Keyed β) (k : Key) (x : β) (l : Key) :
    (t.insert k x).contains l = (t.contains l || !t.contains k && k.same l) := by
  rw [Bool.eq_iff_iff, Bool.or_eq_true, contains_iff_keys, keys_insert]
  by_cases present : t.contains k = true
  · simp [present, ← contains_iff_keys]
  · simp [present, or_and_right, exists_or, ← contains_iff_keys]

/-- Keys that differ from each other go to the end, if they are new. -/
theorem keys_insertAll {es : List (Key × β)} (distinct : es.Pairwise fun e f => e.1.same f.1 = false)
    (t : Keyed β) : (t.insertAll es).keys = t.keys ++ (es.map (·.1)).filter (!t.contains ·) := by
  induction es generalizing t with
  | nil => exact (List.append_nil _).symm
  | cons e es ih =>
    obtain ⟨apart, distinct⟩ := List.pairwise_cons.1 distinct
    have still (l : Key) (hl : l ∈ es.map (·.1)) :
        (!(t.insert e.1 e.2).contains l) = !t.contains l := by
      obtain ⟨f, hf, rfl⟩ := List.mem_map.1 hl
      rw [contains_insert, apart f hf, Bool.and_false, Bool.or_false]
    rw [insertAll, List.foldl_cons]
    refine (ih distinct (t.insert e.1 e.2)).trans ?_
    rw [List.filter_congr still, keys_insert, List.map_cons, List.filter_cons]
    cases t.contains e.1 <;> simp

theorem keys_merge (t u : Keyed β) : (t.merge u).keys = t.keys ++ u.keys.filter (!t.contains ·) :=
  keys_insertAll u.pairwise_entries t

section
variable [Carries β] {w : World}

/-- The same keys are contained alike. -/
theorem contains_congr (ht : w.Has t) (hk : w.Has k) (hl : w.Has l) (h : k.same l = true) :
    t.contains k = t.contains l := by
  rw [Bool.eq_iff_iff, contains_iff_keys, contains_iff_keys]
  refine exists_congr fun m => and_congr_right fun hm => ?_
  have hm := has_keys ht m hm
  rw [Key.same_comm hm hk, Key.same_comm hm hl, Key.same_congr hk hl hm h]

theorem contains_merge (ht : w.Has t) (hu : w.Has u) (hk : w.Has k) :
    (t.merge u).contains k = (t.contains k || u.contains k) := by
  have alike (l : Key) (hl : l ∈ u.keys) (same : l.same k = true) : t.contains l = t.contains k :=
    contains_congr ht (has_keys hu l hl) hk same
  rw [Bool.eq_iff_iff, Bool.or_eq_true, contains_iff_keys, keys_merge]
  constructor
  · rintro ⟨l, hl, same⟩
    rcases List.mem_append.1 hl with hl | hl
    · exact .inl (contains_iff_keys.2 ⟨l, hl, same⟩)
    · exact .inr (contains_iff_keys.2 ⟨l, (List.mem_filter.1 hl).1, same⟩)
  · intro either
    by_cases present : t.contains k = true
    · obtain ⟨l, hl, same⟩ := contains_iff_keys.1 present
      exact ⟨l, List.mem_append_left _ hl, same⟩
    · obtain ⟨l, hl, same⟩ := contains_iff_keys.1 (either.resolve_left present)
      refine ⟨l, List.mem_append_right _ (List.mem_filter.2 ⟨hl, ?_⟩), same⟩
      simpa [alike l hl same] using present

-- ---------------------------------------------------------------------------
-- Values
-- ---------------------------------------------------------------------------

theorem find?_insert (ht : w.Has t) (hk : w.Has k) (hl : w.Has l) (x : β) :
    (t.insert k x).find? l = if k.same l then some x else t.find? l := by
  cases hc : t.contains k with
  | false =>
    rw [find?_eq, entries_insert_of_not_contains x hc, List.find?_append, List.find?_singleton]
    cases same : k.same l with
    | true =>
      have absent : t.contains l = false := contains_congr ht hk hl same ▸ hc
      rw [contains_eq, List.any_eq_false] at absent
      rw [List.find?_eq_none.2 absent]
      rfl
    | false => simp [find?_eq]
  | true =>
    obtain ⟨front, e, back, split, place, he, hf⟩ := exists_entries_split hc
    have written : (t.insert k x).entries = front ++ (e.1, x) :: back := by
      rw [entries_insert_of_place x place, split]
      simp [List.modify_eq_take_drop]
    rw [find?_eq, find?_eq, written, split, List.find?_append, List.find?_append, List.find?_cons,
      List.find?_cons]
    have here : e.1.same l = k.same l :=
      Key.same_congr (has_key ht (split ▸ by simp)) hk hl he
    rw [here]
    cases same : k.same l with
    | true =>
      have before : front.find? (·.1.same l) = none := by
        refine List.find?_eq_none.2 fun f hm => ?_
        have hf' : w.Has f.1 := has_key ht (split ▸ by simp [hm])
        rw [Key.same_comm hf' hl, ← Key.same_congr hk hl hf' same, Key.same_comm hk hf', hf f hm]
        exact Bool.false_ne_true
      rw [before]
      rfl
    | false => rfl

theorem find?_insertAll {es : List (Key × β)}
    (distinct : es.Pairwise fun e f => e.1.same f.1 = false) (ht : w.Has t) (hes : w.Has es)
    (hk : w.Has k) : (t.insertAll es).find? k =
      ((es.find? (·.1.same k)).map (·.2)).or (t.find? k) := by
  induction es generalizing t with
  | nil => rfl
  | cons e es ih =>
    obtain ⟨apart, distinct⟩ := List.pairwise_cons.1 distinct
    obtain ⟨he, hes⟩ := List.forall_mem_cons.1 hes
    rw [insertAll, List.foldl_cons]
    refine (ih distinct (has_insert ht he.1 he.2) hes).trans ?_
    rw [find?_insert ht he.1 hk, List.find?_cons]
    cases same : e.1.same k with
    | true =>
      have later : es.find? (·.1.same k) = none := by
        refine List.find?_eq_none.2 fun f hf => ?_
        rw [Key.same_comm (hes f hf).1 hk, ← Key.same_congr he.1 hk (hes f hf).1 same, apart f hf]
        exact Bool.false_ne_true
      rw [later]
      rfl
    | false => rfl

/-- The second table is asked first. -/
theorem find?_merge (ht : w.Has t) (hu : w.Has u) (hk : w.Has k) :
    (t.merge u).find? k = (u.find? k).or (t.find? k) := by
  rw [merge, find?_insertAll u.pairwise_entries ht hu hk, ← find?_eq]

end

-- ---------------------------------------------------------------------------
-- Entries
-- ---------------------------------------------------------------------------

/-- Keys and what is found under them make up the entries. -/
theorem entries_eq_filterMap (t : Keyed β) :
    t.entries = t.keys.filterMap fun k => (t.find? k).map fun x => (k, x) := by
  have each : ∀ e ∈ t.entries, ((t.find? e.1).map fun x => (e.1, x)) = some e := fun e he => by
    rw [find?_of_mem he, Option.map_some]
  rw [keys, List.filterMap_map]
  exact ((List.filterMap_congr each).trans List.filterMap_some).symm

/-- Tables with the same keys, under which the same is found, have the same entries. -/
theorem entries_eq_of_find? (keys : t.keys = u.keys) (found : ∀ k ∈ u.keys, t.find? k = u.find? k) :
    t.entries = u.entries := by
  rw [entries_eq_filterMap, entries_eq_filterMap u, keys]
  exact List.filterMap_congr fun k hk => by rw [found k hk]

/-- The first entries in their places, with the second values where there are some, and then the
second entries whose keys are new, in their order. -/
def mergedEntries (es fs : List (Key × β)) : List (Key × β) :=
  es.map (fun e => (e.1, ((fs.find? (·.1.same e.1)).map (·.2)).getD e.2)) ++
    fs.filter fun f => !es.any (·.1.same f.1)

@[simp] theorem mergedEntries_nil (es : List (Key × β)) : mergedEntries es [] = es := by
  simp [mergedEntries]

@[simp] theorem nil_mergedEntries (es : List (Key × β)) : mergedEntries [] es = es := by
  simp [mergedEntries]

theorem mergedEntries_self (t : Keyed β) : mergedEntries t.entries t.entries = t.entries := by
  have kept : ∀ e ∈ t.entries,
      (e.1, ((t.entries.find? (·.1.same e.1)).map (·.2)).getD e.2) = e := fun e he => by
    rw [← find?_eq, find?_of_mem he, Option.getD_some]
  have none_new : t.entries.filter (fun e => !t.entries.any (·.1.same e.1)) = [] := by
    refine List.filter_eq_nil_iff.2 fun e he => ?_
    rw [← contains_eq, ← isSome_find?, find?_of_mem he]
    exact Bool.false_ne_true
  rw [mergedEntries, none_new, List.append_nil, List.map_congr_left kept, List.map_id']

section
variable [Carries β] {w : World}

theorem entries_merge (ht : w.Has t) (hu : w.Has u) :
    (t.merge u).entries = mergedEntries t.entries u.entries := by
  rw [entries_eq_filterMap, keys_merge, List.filterMap_append, mergedEntries]
  congr 1
  · rw [keys, List.filterMap_map, ← List.filterMap_eq_map]
    refine List.filterMap_congr fun e he => ?_
    have found := find?_merge ht hu (has_key ht he)
    rw [find?_of_mem he, Option.or_some, find?_eq u] at found
    rw [Function.comp_apply, found]
    rfl
  · have each : ∀ f ∈ u.entries.filter (fun f => !t.contains f.1),
        (((t.merge u).find? f.1).map fun x => (f.1, x)) = some f := fun f hf => by
      have mem := (List.mem_filter.1 hf).1
      rw [find?_merge ht hu (has_key hu mem), find?_of_mem mem, Option.some_or, Option.map_some]
    rw [keys, List.filter_map, List.filterMap_map]
    simp only [← contains_eq]
    exact (List.filterMap_congr each).trans List.filterMap_some

theorem entries_merge_assoc (ht : w.Has t) (hu : w.Has u) (hv : w.Has v) :
    ((t.merge u).merge v).entries = (t.merge (u.merge v)).entries := by
  refine entries_eq_of_find? ?_ fun k hk => ?_
  · have new (k : Key) (hk : k ∈ v.keys) :
        (!(t.merge u).contains k) = ((!t.contains k) && !u.contains k) := by
      rw [contains_merge ht hu (has_keys hv k hk), Bool.not_or]
    rw [keys_merge, keys_merge, keys_merge, keys_merge, List.filter_append, List.filter_filter,
      List.filter_congr new, List.append_assoc]
  · have hk : w.Has k := has_keys (has_merge ht (has_merge hu hv)) k hk
    rw [find?_merge (has_merge ht hu) hv hk, find?_merge ht hu hk,
      find?_merge ht (has_merge hu hv) hk, find?_merge hu hv hk, Option.or_assoc]

end

end ObjectModel.Keyed
