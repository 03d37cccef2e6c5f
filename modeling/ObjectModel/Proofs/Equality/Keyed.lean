import Mathlib.Data.Fintype.EquivFin
import ObjectModel.Heap.Equality
import ObjectModel.Proofs.Equality.Same

/-!
# Keyed contents that match

Dicts, sets and views are compared one-sidedly: as many entries in both, and
each key of the one in the other. `Keyed.Matches` is that relation. It is
symmetric because the keys of either side differ from each other: a map of
the places of the one to those of the other that misses none is onto.

Main statements: `Key.same` is an equivalence on the keys of a world;
`Matches.symm` and `Matches.trans`; `find?_eq_some_iff` reads a look-up as
membership.
-/

namespace ObjectModel

namespace Value

/-- Equality that reads no heap is an equivalence on a world. -/
theorem lawful_sameKey (w : World) : Lawful w fun _ _ => false where
  symm _ _ _ h := by cases h
  trans _ _ _ _ _ _ h := by cases h
  bytes_eq h := by cases h
  bytes_tag h := by cases h

theorem sameKey_refl (a : Value) : a.sameKey a = true := equalsWith_refl a

theorem sameKey_symm {w : World} {a b : Value} (ha : w.Has a) (hb : w.Has b)
    (h : a.sameKey b = true) : b.sameKey a = true :=
  equalsWith_symm (lawful_sameKey w) ha hb h

theorem sameKey_trans {w : World} {a b c : Value} (ha : w.Has a) (hb : w.Has b) (hc : w.Has c)
    (h : a.sameKey b = true) (h' : b.sameKey c = true) : a.sameKey c = true :=
  equalsWith_trans (lawful_sameKey w) ha hb hc h h'

theorem sameKey_comm {w : World} {a b : Value} (ha : w.Has a) (hb : w.Has b) :
    a.sameKey b = b.sameKey a :=
  Bool.eq_iff_iff.2 ⟨sameKey_symm ha hb, sameKey_symm hb ha⟩

/-- Values that are equal are equal to the same values. -/
theorem sameKey_congr {w : World} {a b c : Value} (ha : w.Has a) (hb : w.Has b) (hc : w.Has c)
    (h : a.sameKey b = true) : c.sameKey a = c.sameKey b :=
  Bool.eq_iff_iff.2 ⟨fun hca => sameKey_trans hc ha hb hca h,
    fun hcb => sameKey_trans hc hb ha hcb (sameKey_symm ha hb h)⟩

end Value

namespace Key

theorem same_iff {k l : Key} :
    k.same l = true ↔ k.hash = l.hash ∧ k.value.sameKey l.value = true := by
  simp [same]

theorem same_refl (k : Key) : k.same k = true := same_iff.2 ⟨rfl, Value.sameKey_refl _⟩

section
variable {w : World} {k l m : Key}

theorem same_symm (hk : w.Has k) (hl : w.Has l) (h : k.same l = true) : l.same k = true := by
  rw [same_iff] at h ⊢
  exact ⟨h.1.symm, Value.sameKey_symm hk hl h.2⟩

theorem same_comm (hk : w.Has k) (hl : w.Has l) : k.same l = l.same k :=
  Bool.eq_iff_iff.2 ⟨same_symm hk hl, same_symm hl hk⟩

theorem same_trans (hk : w.Has k) (hl : w.Has l) (hm : w.Has m) (h : k.same l = true)
    (h' : l.same m = true) : k.same m = true := by
  rw [same_iff] at h h' ⊢
  exact ⟨h.1.trans h'.1, Value.sameKey_trans hk hl hm h.2 h'.2⟩

/-- Keys that are the same are the same as the same keys. -/
theorem same_congr (hk : w.Has k) (hl : w.Has l) (hm : w.Has m) (h : k.same l = true) :
    k.same m = l.same m :=
  Bool.eq_iff_iff.2 ⟨same_trans hl hk hm (same_symm hk hl h), same_trans hk hl hm h⟩

end

end Key

namespace Keyed

variable {β γ δ : Type}

/-- As many entries, and each entry of the one has one of the other with the
same key, related by `R`. -/
def Matches (R : β → γ → Prop) (s : Keyed β) (t : Keyed γ) : Prop :=
  s.size = t.size ∧ ∀ e ∈ s.entries, ∃ f ∈ t.entries, e.1.same f.1 = true ∧ R e.2 f.2

theorem length_keys (t : Keyed β) : t.keys.length = t.size := by
  rw [keys, List.length_map, length_entries]

theorem pairwise_keys (t : Keyed β) : t.keys.Pairwise fun k l => k.same l = false := by
  rw [keys, List.pairwise_map]
  exact t.pairwise_entries

theorem contains_iff_keys {t : Keyed β} {k : Key} :
    t.contains k = true ↔ ∃ l ∈ t.keys, l.same k = true := by
  rw [contains_iff, keys]
  simp only [List.mem_map, exists_exists_and_eq_and]

theorem contains_of_mem {t : Keyed β} {k : Key} (h : k ∈ t.keys) : t.contains k = true :=
  contains_iff_keys.2 ⟨k, h, k.same_refl⟩

/-- A key of a table is found with the value that stands beside it. -/
theorem find?_of_entryAt? {t : Keyed β} {n : Nat} {k : Key} {v : β}
    (h : t.entryAt? n = some (k, v)) : t.find? k = some v := by
  rw [entryAt?_eq, List.getElem?_eq_some_iff] at h
  obtain ⟨inside, entry⟩ := h
  have first : t.entries.find? (·.1.same k) = some (k, v) := by
    refine List.find?_eq_some_iff_getElem.2 ⟨Key.same_refl k, n, inside, entry, fun i before => ?_⟩
    have distinct := List.pairwise_iff_getElem.1 t.pairwise_entries
    have apart := distinct i n (before.trans inside) inside before
    rw [entry] at apart
    simp [apart]
  rw [find?_eq, first, Option.map_some]

theorem find?_of_mem {t : Keyed β} {e : Key × β} (he : e ∈ t.entries) : t.find? e.1 = some e.2 := by
  obtain ⟨n, hn⟩ := List.mem_iff_getElem?.1 he
  exact find?_of_entryAt? (t.entryAt?_eq n ▸ hn)

/-- A key that is there splits the entries at its place. -/
theorem exists_entries_split {t : Keyed β} {k : Key} (h : t.contains k = true) : ∃ front e back,
    t.entries = front ++ e :: back ∧ t.place? k = some front.length ∧ e.1.same k = true ∧
      ∀ f ∈ front, f.1.same k = false := by
  rw [← isSome_find?, find?_eq, Option.isSome_map, Option.isSome_iff_exists] at h
  obtain ⟨e, he⟩ := h
  obtain ⟨hs, front, back, split, hf⟩ := List.find?_eq_some_iff_append.1 he
  have apart : ∀ f ∈ front, f.1.same k = false := by simpa using hf
  exact ⟨front, e, back, split, place?_of_split split apart hs, hs, apart⟩

theorem keys_insert (t : Keyed β) (k : Key) (v : β) :
    (t.insert k v).keys = if t.contains k then t.keys else t.keys ++ [k] := by
  cases hp : t.place? k with
  | some i =>
    have present : t.contains k = true := by simp [contains, hp]
    rw [if_pos present, keys, keys, entries_insert_of_place v hp]
    refine List.ext_getElem? fun j => ?_
    rw [List.getElem?_map, List.getElem?_map, List.getElem?_modify]
    split <;> simp [Function.comp_def]
  | none =>
    have absent : t.contains k = false := by simp [contains, hp]
    rw [if_neg (by simp [absent]), keys, keys, entries_insert_of_not_contains v absent,
      List.map_append]
    rfl

section
variable [Carries β] {w : World} {t : Keyed β}

theorem has_key (ht : w.Has t) {e : Key × β} (he : e ∈ t.entries) : w.Has e.1 := (ht e he).1

theorem has_value (ht : w.Has t) {e : Key × β} (he : e ∈ t.entries) : w.Has e.2 := (ht e he).2

/-- A key names at most one entry. -/
theorem entry_unique (ht : w.Has t) {i j : Nat} (hi : i < t.entries.length)
    (hj : j < t.entries.length) (h : t.entries[i].1.same t.entries[j].1 = true) : i = j := by
  have distinct := List.pairwise_iff_getElem.1 t.pairwise_entries
  have has {i : Nat} (hi : i < t.entries.length) : w.Has t.entries[i].1 :=
    has_key ht (List.getElem_mem hi)
  rcases Nat.lt_trichotomy i j with hij | hij | hij
  · exact absurd h (by simp [distinct i j hi hj hij])
  · exact hij
  · exact absurd (Key.same_symm (has hi) (has hj) h) (by simp [distinct j i hj hi hij])

theorem entry_eq (ht : w.Has t) {e f : Key × β} (he : e ∈ t.entries) (hf : f ∈ t.entries)
    (h : e.1.same f.1 = true) : e = f := by
  obtain ⟨i, hi, rfl⟩ := List.getElem_of_mem he
  obtain ⟨j, hj, rfl⟩ := List.getElem_of_mem hf
  cases entry_unique ht hi hj h
  rfl

/-- A look-up finds the value of the entry that has the key. -/
theorem find?_eq_some_iff (ht : w.Has t) {key : Key} (hk : w.Has key) {v : β} :
    t.find? key = some v ↔ ∃ e ∈ t.entries, e.1.same key = true ∧ e.2 = v := by
  rw [find?_eq, Option.map_eq_some_iff]
  constructor
  · rintro ⟨e, he, rfl⟩
    exact ⟨e, List.mem_of_find?_eq_some he, by simpa using List.find?_some he, rfl⟩
  · rintro ⟨e, he, hs, rfl⟩
    cases hf : t.entries.find? (·.1.same key) with
    | none => exact absurd hs (by simpa using List.find?_eq_none.1 hf e he)
    | some f =>
      have hf' := List.mem_of_find?_eq_some hf
      have hfk : f.1.same key = true := by simpa using List.find?_some hf
      have hfe := Key.same_trans (has_key ht hf') hk (has_key ht he) hfk
        (Key.same_symm (has_key ht he) hk hs)
      exact ⟨f, rfl, congrArg Prod.snd (entry_eq ht hf' he hfe)⟩

end

section
variable [Carries β] [Carries γ] {w : World} {s : Keyed β} {t : Keyed γ}

/-- What matches leaves no entry of the other side out. -/
theorem Matches.onto {R : β → γ → Prop} (hs : w.Has s) (ht : w.Has t) (h : s.Matches R t) :
    ∀ f ∈ t.entries, ∃ e ∈ s.entries, e.1.same f.1 = true ∧ R e.2 f.2 := by
  obtain ⟨hsize, h⟩ := h
  have partner (i : Fin s.entries.length) : ∃ j : Fin t.entries.length,
      s.entries[i].1.same t.entries[j].1 = true ∧ R s.entries[i].2 t.entries[j].2 := by
    obtain ⟨f, hf, hsame, hR⟩ := h s.entries[i] (List.getElem_mem i.2)
    obtain ⟨j, hj, rfl⟩ := List.getElem_of_mem hf
    exact ⟨⟨j, hj⟩, hsame, hR⟩
  choose place hplace using partner
  have hk (i : Fin s.entries.length) : w.Has s.entries[i].1 := has_key hs (List.getElem_mem i.2)
  have hl (j : Fin t.entries.length) : w.Has t.entries[j].1 := has_key ht (List.getElem_mem j.2)
  have injective : Function.Injective place := fun i j hij => by
    have hi := (hplace i).1
    have hj := Key.same_symm (hk j) (hl _) (hplace j).1
    rw [← hij] at hj
    exact Fin.ext (entry_unique hs i.2 j.2 (Key.same_trans (hk i) (hl _) (hk j) hi hj))
  have bijective : Function.Bijective place :=
    (Fintype.bijective_iff_injective_and_card place).2 ⟨injective, by simpa using hsize⟩
  intro f hf
  obtain ⟨j, hj, rfl⟩ := List.getElem_of_mem hf
  obtain ⟨i, hi⟩ := bijective.surjective ⟨j, hj⟩
  have hp := hplace i
  rw [hi] at hp
  exact ⟨s.entries[i], List.getElem_mem i.2, hp⟩

theorem Matches.symm {R : β → γ → Prop} {S : γ → β → Prop} (hs : w.Has s) (ht : w.Has t)
    (symm : ∀ x y, w.Has x → w.Has y → R x y → S y x) (h : s.Matches R t) : t.Matches S s := by
  refine ⟨h.1.symm, fun f hf => ?_⟩
  obtain ⟨e, he, hsame, hR⟩ := h.onto hs ht f hf
  exact ⟨e, he, Key.same_symm (has_key hs he) (has_key ht hf) hsame,
    symm _ _ (has_value hs he) (has_value ht hf) hR⟩

theorem Matches.trans [Carries δ] {u : Keyed δ} {R : β → γ → Prop} {S : γ → δ → Prop}
    {T : β → δ → Prop} (hs : w.Has s) (ht : w.Has t) (hu : w.Has u)
    (trans : ∀ x y z, w.Has x → w.Has y → w.Has z → R x y → S y z → T x z) (h : s.Matches R t)
    (h' : t.Matches S u) : s.Matches T u := by
  refine ⟨h.1.trans h'.1, fun e he => ?_⟩
  obtain ⟨f, hf, hef, hR⟩ := h.2 e he
  obtain ⟨g, hg, hfg, hS⟩ := h'.2 f hf
  exact ⟨g, hg, Key.same_trans (has_key hs he) (has_key ht hf) (has_key hu hg) hef hfg,
    trans _ _ _ (has_value hs he) (has_value ht hf) (has_value hu hg) hR hS⟩

/-- Looking every entry up is matching. -/
theorem matches_of_find? {R : β → γ → Prop} (hs : w.Has s) (ht : w.Has t) :
    s.Matches R t ↔ s.size = t.size ∧ ∀ e ∈ s.entries, ∃ v, t.find? e.1 = some v ∧ R e.2 v := by
  refine and_congr_right fun _ => forall₂_congr fun e he => ?_
  constructor
  · rintro ⟨f, hf, hsame, hR⟩
    exact ⟨f.2, (find?_eq_some_iff ht (has_key hs he)).2
      ⟨f, hf, Key.same_symm (has_key hs he) (has_key ht hf) hsame, rfl⟩, hR⟩
  · rintro ⟨v, hv, hR⟩
    obtain ⟨f, hf, hsame, rfl⟩ := (find?_eq_some_iff ht (has_key hs he)).1 hv
    exact ⟨f, hf, Key.same_symm (has_key ht hf) (has_key hs he) hsame, hR⟩

/-- So is asking for every key. -/
theorem matches_of_contains (hs : w.Has s) (ht : w.Has t) :
    s.Matches (fun _ _ => True) t ↔ s.size = t.size ∧ ∀ k ∈ s.keys, t.contains k = true := by
  refine and_congr_right fun _ => ?_
  rw [keys, List.forall_mem_map]
  refine forall₂_congr fun e he => contains_iff.trans ?_ |>.symm
  refine exists_congr fun f => and_congr_right fun hf => ?_
  rw [Key.same_comm (has_key hs he) (has_key ht hf), and_true]

end

end Keyed

end ObjectModel
