import ObjectModel.Proofs.Dict.Merge
import ObjectModel.Proofs.Equality.Heap

/-!
# The algebra of key sets

What the operations on key sets contain, in what order their keys come and how
many there are. Keys are told apart by `Key.same`, an equivalence on the keys of
a world.

Main statements: `KeySet.contains_union` and its siblings,
`KeySet.isSubset_iff`, `KeySet.same_eq` and `KeySet.size_union_add_size_inter`.
-/

namespace ObjectModel

variable {w : World}

/-- Keys that differ from each other and each have a partner are not more than
the partners. -/
theorem length_le_of_partners {ks ls : List Key} (hk : w.Has ks) (hl : w.Has ls)
    (distinct : ks.Pairwise fun k l => k.same l = false)
    (partner : ∀ k ∈ ks, ∃ l ∈ ls, l.same k = true) : ks.length ≤ ls.length := by
  induction ks generalizing ls with
  | nil => exact Nat.zero_le _
  | cons k ks ih =>
    obtain ⟨hk, hks⟩ := List.forall_mem_cons.1 hk
    obtain ⟨apart, distinct⟩ := List.pairwise_cons.1 distinct
    obtain ⟨l, mem, same⟩ := partner k (List.mem_cons_self ..)
    obtain ⟨front, back, rfl⟩ := List.append_of_mem mem
    obtain ⟨hf, hlb⟩ := List.forall_mem_append.1 hl
    obtain ⟨hl, hb⟩ := List.forall_mem_cons.1 hlb
    -- The partner of `k` is nobody else's, so the others have theirs without it.
    have rest : ks.length ≤ (front ++ back).length := by
      refine ih hks (World.has_append hf hb) distinct fun m hm => ?_
      obtain ⟨l', mem', same'⟩ := partner m (List.mem_cons_of_mem _ hm)
      rcases List.mem_append.1 mem' with h | h
      · exact ⟨l', List.mem_append_left _ h, same'⟩
      · rcases List.mem_cons.1 h with rfl | h
        · have one := Key.same_trans hk hl (hks m hm) (Key.same_symm hl hk same) same'
          rw [apart m hm] at one
          cases one
        · exact ⟨l', List.mem_append_right _ h, same'⟩
    simp only [List.length_append, List.length_cons] at rest ⊢
    omega

-- ---------------------------------------------------------------------------
-- Operations
-- ---------------------------------------------------------------------------

namespace KeySet

variable {s t : KeySet} {k : Key}

theorem keys_filter (s : KeySet) (p : Key → Bool) : (s.filter p).keys = s.keys.filter p := by
  rw [filter, Keyed.keys, Keyed.entries_ofEntries (s.pairwise_entries.filter _), Keyed.keys,
    List.filter_map]
  rfl

/-- When the last keys have been gone through, those before are all still there. -/
theorem entries_retain (s : KeySet) (p : Key → Bool) :
    (s.retain p).entries = s.entries.filter (p ·.1) := by
  suffices step : ∀ front back, s.entries = front ++ back →
      ((back.map (·.1)).foldr (fun key kept => if p key then kept else Keyed.erase kept key)
        s).entries = front ++ back.filter (p ·.1) from step [] s.entries rfl
  intro front back split
  induction back generalizing front with
  | nil => simpa using split
  | cons e back ih =>
    have rest := ih (front ++ [e]) (by simpa using split)
    rw [List.map_cons, List.foldr_cons, List.filter_cons]
    cases keep : p e.1 with
    | true => simpa using rest
    | false =>
      have apart : ∀ f ∈ front, f.1.same e.1 = false := fun f hf => by
        have pairwise := s.pairwise_entries
        rw [split, List.pairwise_append] at pairwise
        exact pairwise.2.2 f hf e (List.mem_cons_self ..)
      rw [List.append_assoc, List.singleton_append] at rest
      rw [if_neg Bool.false_ne_true, if_neg Bool.false_ne_true,
        Keyed.entries_erase_of_place (Keyed.place?_of_split rest apart e.1.same_refl), rest]
      simp [List.eraseIdx_append_of_length_le]

theorem keys_retain (s : KeySet) (p : Key → Bool) : (s.retain p).keys = s.keys.filter p := by
  rw [Keyed.keys, entries_retain, Keyed.keys, List.filter_map]
  rfl

/-- A key set is a table without values, and so a union is a merge. -/
theorem union_eq_merge (s t : KeySet) : s.union t = s.merge t := List.foldl_map

theorem keys_union (s t : KeySet) : (s.union t).keys = s.keys ++ t.keys.filter (!s.contains ·) :=
  union_eq_merge s t ▸ Keyed.keys_merge s t

theorem keys_inter (s t : KeySet) : (s.inter t).keys = s.keys.filter t.contains := keys_filter ..

theorem keys_diff (s t : KeySet) : (s.diff t).keys = s.keys.filter (!t.contains ·) :=
  keys_filter ..

theorem same_refl (s : KeySet) : s.same s = true := by
  have all : s.keys.all s.contains = true := List.all_eq_true.2 fun _ => Keyed.contains_of_mem
  rw [same, isSubset, all]
  simp

/-- What a filter lets pass, when the test does not tell the same keys apart. -/
theorem contains_filter (hs : w.Has s) {p : Key → Bool}
    (respects : ∀ l, w.Has l → l.same k = true → p l = p k) :
    (s.filter p).contains k = (s.contains k && p k) := by
  rw [Bool.eq_iff_iff, Bool.and_eq_true, Keyed.contains_iff_keys, Keyed.contains_iff_keys,
    keys_filter]
  constructor
  · rintro ⟨l, hl, same⟩
    obtain ⟨hl, pass⟩ := List.mem_filter.1 hl
    exact ⟨⟨l, hl, same⟩, respects l (Keyed.has_keys hs l hl) same ▸ pass⟩
  · rintro ⟨⟨l, hl, same⟩, pass⟩
    exact ⟨l, List.mem_filter.2 ⟨hl, respects l (Keyed.has_keys hs l hl) same ▸ pass⟩, same⟩

section
variable (hs : w.Has s) (ht : w.Has t) (hk : w.Has k)
include hs ht hk

theorem contains_inter : (s.inter t).contains k = (s.contains k && t.contains k) :=
  contains_filter hs fun _ hl same => Keyed.contains_congr ht hl hk same

theorem contains_diff : (s.diff t).contains k = (s.contains k && !t.contains k) :=
  contains_filter hs fun _ hl same => congrArg (!·) (Keyed.contains_congr ht hl hk same)

theorem contains_union : (s.union t).contains k = (s.contains k || t.contains k) :=
  union_eq_merge s t ▸ Keyed.contains_merge hs ht hk

theorem contains_symmDiff :
    (s.symmDiff t).contains k = (s.contains k != t.contains k) := by
  have left : w.Has (s.diff t) := has_filter hs _
  have right : w.Has (t.diff s) := has_filter ht _
  rw [symmDiff, contains_union left right hk, contains_diff hs ht hk, contains_diff ht hs hk]
  cases s.contains k <;> cases t.contains k <;> rfl

omit hk

theorem size_le_of_subset (h : ∀ k ∈ s.keys, t.contains k = true) : s.size ≤ t.size := by
  rw [← Keyed.length_keys, ← Keyed.length_keys]
  exact length_le_of_partners (Keyed.has_keys hs) (Keyed.has_keys ht) s.pairwise_keys fun k hk =>
    Keyed.contains_iff_keys.1 (h k hk)

/-- Inclusion is containing every key. -/
theorem isSubset_iff : s.isSubset t = true ↔ ∀ k ∈ s.keys, t.contains k = true := by
  rw [isSubset, Bool.and_eq_true, decide_eq_true_eq, List.all_eq_true]
  exact ⟨And.right, fun h => ⟨size_le_of_subset hs ht h, h⟩⟩

theorem size_le_of_isSubset (h : s.isSubset t = true) : s.size ≤ t.size :=
  size_le_of_subset hs ht ((isSubset_iff hs ht).1 h)

/-- Equality is inclusion in both directions. -/
theorem same_eq : s.same t = (s.isSubset t && t.isSubset s) := by
  rw [Bool.eq_iff_iff, Bool.and_eq_true]
  constructor
  · intro h
    have flipped : t.same s = true := (Heap.setsEqual_iff ht hs).2
      (((Heap.setsEqual_iff hs ht).1 h).symm hs ht fun _ _ _ _ => id)
    exact ⟨(Bool.and_eq_true_iff.1 h).2, (Bool.and_eq_true_iff.1 flipped).2⟩
  · rintro ⟨h, h'⟩
    have size := Nat.le_antisymm (size_le_of_isSubset hs ht h) (size_le_of_isSubset ht hs h')
    exact Bool.and_eq_true_iff.2 ⟨beq_iff_eq.2 size, h⟩

/-- A proper subset is a smaller one. -/
theorem size_lt_and_isSubset :
    (decide (s.size < t.size) && s.isSubset t) = (s.isSubset t && !s.same t) := by
  rw [same]
  cases h : s.isSubset t with
  | false => rw [Bool.and_false, Bool.false_and]
  | true =>
    have := size_le_of_isSubset hs ht h
    rw [Bool.and_true, Bool.and_true, Bool.true_and, Bool.eq_iff_iff, decide_eq_true_eq,
      Bool.not_eq_true', beq_eq_false_iff_ne]
    omega

/-- As many keys of the one are in the other as the other way around. -/
theorem size_inter_comm : (s.inter t).size = (t.inter s).size := by
  have le {s t : KeySet} (hs : w.Has s) (ht : w.Has t) : (s.inter t).size ≤ (t.inter s).size := by
    refine size_le_of_subset (has_filter hs _) (has_filter ht _) fun k hk => ?_
    rw [keys_inter, List.mem_filter] at hk
    rw [contains_inter ht hs (Keyed.has_keys hs k hk.1), hk.2, Keyed.contains_of_mem hk.1]
    rfl
  exact Nat.le_antisymm (le hs ht) (le ht hs)

theorem size_union_add_size_inter :
    (s.union t).size + (s.inter t).size = s.size + t.size := by
  have split := List.length_eq_countP_add_countP s.contains (l := t.keys)
  simp only [Bool.not_eq_true, Bool.decide_eq_false, List.countP_eq_length_filter] at split
  rw [size_inter_comm hs ht, ← Keyed.length_keys, ← Keyed.length_keys, ← Keyed.length_keys,
    ← Keyed.length_keys, keys_union, keys_inter, List.length_append, split]
  omega

end

end KeySet

end ObjectModel
