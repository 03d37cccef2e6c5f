import ObjectModel.Proofs.Equality.Hash
import ObjectModel.Proofs.World.Keyed

/-!
# Dicts as association lists

The specification of dict contents: keys with values in order. Keys are told
apart by equality alone; no hash code plays a part. Keys that nest a bound
method are left out, since equality and hash codes disagree on them.

Main statements: `Keyed.find?_eq_lookup`, `Keyed.assoc_insert`,
`Keyed.assoc_erase` and `Keyed.assoc_merge` say that the contents of a dict
follow the specification, and `lookup_write`, `lookup_delete` and
`write_delete` say what is read after writing.
-/

namespace ObjectModel

/-- The value can be a key, and no bound method stands in it. -/
def Value.Keyable (v : Value) : Prop := (∃ n, v.hash = .ok n) ∧ v.methodFree = true

/-- Keys with their values, in the order in which the keys came. -/
abbrev Assoc := List (Value × Value)

namespace Assoc

/-- The value of the key that equals a key. -/
def lookup (t : Assoc) (k : Value) : Option Value := (t.find? (·.1.sameKey k)).map (·.2)

/-- The value of a key, or a fallback; without either the key is missing. -/
def getOr (t : Assoc) (k : Value) (fallback : Option Value) : Except Fault Value :=
  ((t.lookup k).or fallback).elim (.error (.missingKey k)) .ok

/-- A key that equals a stored one leaves that one and its place as they are and
replaces the value; any other key goes to the end. -/
def write : Assoc → Value → Value → Assoc
  | [], k, v => [(k, v)]
  | e :: t, k, v => if e.1.sameKey k then (e.1, v) :: t else e :: write t k v

/-- Writes a key unless one that equals it is there. -/
def writeNew (t : Assoc) (k v : Value) : Assoc := if (t.lookup k).isSome then t else t.write k v

/-- Leaves out the key that equals a key; the rest stays in order. -/
def delete : Assoc → Value → Assoc
  | [], _ => []
  | e :: t, k => if e.1.sameKey k then t else e :: delete t k

/-- Writes the associations of a list in their order. -/
def writeAll (t es : Assoc) : Assoc := es.foldl (fun t e => t.write e.1 e.2) t

/-- No key nests a bound method. -/
def MethodFree (t : Assoc) : Prop := ∀ e ∈ t, e.1.methodFree = true

/-- No two keys are equal. -/
def Distinct (t : Assoc) : Prop := t.Pairwise fun e f => e.1.sameKey f.1 = false

variable {t es : Assoc} {k l v : Value}

@[simp] theorem lookup_nil : lookup [] k = none := rfl

theorem lookup_cons (e : Value × Value) :
    lookup (e :: t) k = if e.1.sameKey k then some e.2 else lookup t k := by
  unfold lookup
  rw [List.find?_cons]
  cases e.1.sameKey k <;> rfl

theorem lookup_eq_none_iff : t.lookup k = none ↔ ∀ e ∈ t, e.1.sameKey k = false := by
  simp [lookup]

theorem isSome_lookup : (t.lookup k).isSome = t.any (·.1.sameKey k) := by
  simp [lookup, List.isSome_find?]

/-- A new key goes to the end. -/
theorem write_of_lookup_eq_none (h : t.lookup k = none) : t.write k v = t ++ [(k, v)] := by
  induction t with
  | nil => rfl
  | cons e t ih =>
    rw [lookup_eq_none_iff, List.forall_mem_cons] at h
    rw [write, h.1, if_neg Bool.false_ne_true, ih (lookup_eq_none_iff.2 h.2), List.cons_append]

theorem delete_of_lookup_eq_none (h : t.lookup k = none) : t.delete k = t := by
  induction t with
  | nil => rfl
  | cons e t ih =>
    rw [lookup_eq_none_iff, List.forall_mem_cons] at h
    rw [delete, h.1, if_neg Bool.false_ne_true, ih (lookup_eq_none_iff.2 h.2)]

section
variable {front back : Assoc} {u : Value}

/-- A key that is there keeps its place. -/
theorem write_split (hf : front.lookup k = none) (hl : l.sameKey k = true) :
    write (front ++ (l, u) :: back) k v = front ++ (l, v) :: back := by
  induction front with
  | nil => rw [List.nil_append, write, if_pos hl, List.nil_append]
  | cons f front ih =>
    rw [lookup_eq_none_iff, List.forall_mem_cons] at hf
    rw [List.cons_append, write, hf.1, if_neg Bool.false_ne_true, ih (lookup_eq_none_iff.2 hf.2),
      List.cons_append]

theorem delete_split (hf : front.lookup k = none) (hl : l.sameKey k = true) :
    delete (front ++ (l, u) :: back) k = front ++ back := by
  induction front with
  | nil => rw [List.nil_append, delete, if_pos hl, List.nil_append]
  | cons f front ih =>
    rw [lookup_eq_none_iff, List.forall_mem_cons] at hf
    rw [List.cons_append, delete, hf.1, if_neg Bool.false_ne_true, ih (lookup_eq_none_iff.2 hf.2),
      List.cons_append]

end

-- ---------------------------------------------------------------------------
-- Keys
-- ---------------------------------------------------------------------------

theorem MethodFree.write (free : t.MethodFree) (hk : k.methodFree = true) :
    (t.write k v).MethodFree := by
  induction t with
  | nil => exact List.forall_mem_singleton.2 hk
  | cons e t ih =>
    obtain ⟨he, ht⟩ := List.forall_mem_cons.1 free
    rw [Assoc.write]
    split
    · exact List.forall_mem_cons.2 ⟨he, ht⟩
    · exact List.forall_mem_cons.2 ⟨he, ih ht⟩

theorem MethodFree.writeNew (free : t.MethodFree) (hk : k.methodFree = true) :
    (t.writeNew k v).MethodFree := by
  unfold Assoc.writeNew
  split
  · exact free
  · exact free.write hk

theorem MethodFree.writeAll (free : t.MethodFree) (hes : es.MethodFree) :
    (t.writeAll es).MethodFree := by
  induction es generalizing t with
  | nil => exact free
  | cons e es ih =>
    obtain ⟨he, hes⟩ := List.forall_mem_cons.1 hes
    exact ih (free.write he) hes

theorem delete_sublist (t : Assoc) (k : Value) : (t.delete k).Sublist t := by
  induction t with
  | nil => exact .slnil
  | cons e t ih =>
    rw [delete]
    split
    · exact .cons e (List.Sublist.refl t)
    · exact ih.cons_cons e

theorem MethodFree.delete (free : t.MethodFree) : (t.delete k).MethodFree :=
  fun e he => free e ((delete_sublist t k).subset he)

section
variable {w : World} {t : Assoc} {e : Value × Value} {k l : Value}

/-- A key that equals a stored one finds its value. -/
theorem lookup_of_mem (ht : w.Has t) (hk : w.Has k) (distinct : t.Distinct) (he : e ∈ t)
    (h : e.1.sameKey k = true) : t.lookup k = some e.2 := by
  induction t with
  | nil => cases he
  | cons f t ih =>
    obtain ⟨apart, distinct⟩ := List.pairwise_cons.1 distinct
    obtain ⟨hf, ht⟩ := List.forall_mem_cons.1 ht
    rw [lookup_cons]
    rcases List.mem_cons.1 he with rfl | he
    · rw [if_pos h]
    · have differs : f.1.sameKey k = false := by
        rw [← Value.sameKey_congr (ht e he).1 hk hf.1 h, apart e he]
      rw [differs, if_neg Bool.false_ne_true, ih ht distinct he]

/-- The value last written for an equal key is found. -/
theorem lookup_write (ht : w.Has t) (hk : w.Has k) (hl : w.Has l) (v : Value) :
    (t.write k v).lookup l = if k.sameKey l then some v else t.lookup l := by
  induction t with
  | nil => rw [write, lookup_cons]
  | cons e t ih =>
    obtain ⟨he, ht⟩ := List.forall_mem_cons.1 ht
    rw [write]
    cases hs : e.1.sameKey k with
    | true =>
      have same : e.1.sameKey l = k.sameKey l := by
        rw [Value.sameKey_comm he.1 hl, Value.sameKey_congr he.1 hk hl hs,
          Value.sameKey_comm hl hk]
      rw [if_pos rfl, lookup_cons, lookup_cons, same]
      cases k.sameKey l <;> rfl
    | false =>
      rw [if_neg Bool.false_ne_true, lookup_cons, lookup_cons, ih ht]
      cases hkl : k.sameKey l with
      | false => rfl
      | true =>
        have apart : e.1.sameKey l = false := by rw [← Value.sameKey_congr hk hl he.1 hkl, hs]
        simp [apart]

/-- What has been deleted is not found. -/
theorem lookup_delete (ht : w.Has t) (hk : w.Has k) (hl : w.Has l) (distinct : t.Distinct) :
    (t.delete k).lookup l = if k.sameKey l then none else t.lookup l := by
  induction t with
  | nil => simp [delete]
  | cons e t ih =>
    obtain ⟨he, ht⟩ := List.forall_mem_cons.1 ht
    obtain ⟨apart, distinct⟩ := List.pairwise_cons.1 distinct
    rw [delete]
    cases hs : e.1.sameKey k with
    | true =>
      have same : e.1.sameKey l = k.sameKey l := by
        rw [Value.sameKey_comm he.1 hl, Value.sameKey_congr he.1 hk hl hs,
          Value.sameKey_comm hl hk]
      rw [if_pos rfl, lookup_cons, same]
      cases hkl : k.sameKey l with
      | false => rfl
      | true =>
        rw [if_pos rfl, lookup_eq_none_iff]
        intro f hf
        rw [← Value.sameKey_congr hk hl (ht f hf).1 hkl, ← Value.sameKey_congr he.1 hk (ht f hf).1 hs,
          Value.sameKey_comm (ht f hf).1 he.1, apart f hf]
    | false =>
      rw [if_neg Bool.false_ne_true, lookup_cons, lookup_cons, ih ht distinct]
      cases hkl : k.sameKey l with
      | false => rfl
      | true =>
        have apart : e.1.sameKey l = false := by rw [← Value.sameKey_congr hk hl he.1 hkl, hs]
        simp [apart]

/-- What is written again goes to the end. -/
theorem write_delete (ht : w.Has t) (hk : w.Has k) (distinct : t.Distinct) (v : Value) :
    (t.delete k).write k v = t.delete k ++ [(k, v)] :=
  write_of_lookup_eq_none (by rw [lookup_delete ht hk hk distinct, if_pos (Value.sameKey_refl k)])

end

end Assoc

namespace Key

variable {w : World} {k l : Key}

/-- Keys of a world are the same as soon as they are equal. -/
theorem same_eq_sameKey (hk : w.Has k) (hl : w.Has l) (free : k.value.methodFree = true) :
    k.same l = k.value.sameKey l.value := by
  cases h : k.value.sameKey l.value with
  | false => simp [same, h]
  | true =>
    have codes : k.value.hash = l.value.hash := Value.hashWith_of_sameKey hk hl free h
    rw [k.hash_eq, l.hash_eq] at codes
    have hash : k.hash = l.hash := Except.ok.inj codes
    simp [same, h, hash]

end Key

namespace Keyed

/-- The contents of a dict as an association list. -/
def assoc (t : Table) : Assoc := t.entries.map fun e => (e.1.value, e.2)

@[simp] theorem assoc_empty : assoc ∅ = [] := rfl

@[simp] theorem length_assoc (t : Table) : t.assoc.length = t.size := by simp [assoc]

section
variable {w : World} {t : Table} {k : Key}

theorem has_assoc (ht : w.Has t) : w.Has t.assoc := fun e he => by
  obtain ⟨f, hf, rfl⟩ := List.mem_map.1 he
  exact ht f hf

theorem keyable_assoc (free : t.assoc.MethodFree) : ∀ e ∈ t.assoc, e.1.Keyable := fun e he => by
  obtain ⟨f, hf, rfl⟩ := List.mem_map.1 he
  exact ⟨⟨f.1.hash, f.1.hash_eq⟩, free _ he⟩

theorem same_entry (ht : w.Has t) (free : t.assoc.MethodFree) (hk : w.Has k) :
    ∀ e ∈ t.entries, e.1.same k = e.1.value.sameKey k.value := fun _ he =>
  Key.same_eq_sameKey (has_key ht he) hk (free _ (List.mem_map_of_mem he))

theorem find?_eq_lookup (ht : w.Has t) (free : t.assoc.MethodFree) (hk : w.Has k) :
    t.find? k = t.assoc.lookup k.value := by
  have same := same_entry ht free hk
  rw [find?_eq, assoc]
  generalize t.entries = es at same
  induction es with
  | nil => rfl
  | cons e es ih =>
    obtain ⟨he, hes⟩ := List.forall_mem_cons.1 same
    rw [List.map_cons, Assoc.lookup_cons, List.find?_cons, he, ← ih hes]
    cases e.1.value.sameKey k.value <;> rfl

theorem contains_eq_lookup (ht : w.Has t) (free : t.assoc.MethodFree) (hk : w.Has k) :
    t.contains k = (t.assoc.lookup k.value).isSome := by
  rw [← isSome_find?, find?_eq_lookup ht free hk]

/-- A key that is there splits the contents at its place. -/
theorem exists_split (ht : w.Has t) (free : t.assoc.MethodFree) (hk : w.Has k)
    (h : t.contains k = true) : ∃ front e back, t.entries = front ++ e :: back ∧
      t.place? k = some front.length ∧ e.1.value.sameKey k.value = true ∧
      Assoc.lookup (front.map fun f => (f.1.value, f.2)) k.value = none := by
  have same := same_entry ht free hk
  obtain ⟨front, e, back, split, place, hs, hf⟩ := exists_entries_split h
  refine ⟨front, e, back, split, place, ?_, ?_⟩
  · rw [← same e (by simp [split]), hs]
  · rw [Assoc.lookup_eq_none_iff, List.forall_mem_map]
    intro f hm
    rw [← same f (by simp [split, hm]), hf f hm]

theorem assoc_insert (ht : w.Has t) (free : t.assoc.MethodFree) (hk : w.Has k) (v : Value) :
    (t.insert k v).assoc = t.assoc.write k.value v := by
  cases hc : t.contains k with
  | false =>
    have missing : t.assoc.lookup k.value = none := by
      simpa [contains_eq_lookup ht free hk] using hc
    rw [Assoc.write_of_lookup_eq_none missing, assoc, entries_insert_of_not_contains v hc]
    simp [assoc]
  | true =>
    obtain ⟨front, e, back, split, place, he, hf⟩ := exists_split ht free hk hc
    rw [assoc, assoc, entries_insert_of_place v place, split]
    simp [List.modify_eq_take_drop, Assoc.write_split hf he]

theorem assoc_erase (ht : w.Has t) (free : t.assoc.MethodFree) (hk : w.Has k) :
    (t.erase k).assoc = t.assoc.delete k.value := by
  cases hc : t.contains k with
  | false =>
    have missing : t.assoc.lookup k.value = none := by
      simpa [contains_eq_lookup ht free hk] using hc
    rw [erase_of_not_contains hc, Assoc.delete_of_lookup_eq_none missing]
  | true =>
    obtain ⟨front, e, back, split, place, he, hf⟩ := exists_split ht free hk hc
    rw [assoc, assoc, entries_erase_of_place place, split]
    simp [List.eraseIdx_append_of_length_le, Assoc.delete_split hf he]

theorem assoc_insertAll {es : List (Key × Value)} (ht : w.Has t) (free : t.assoc.MethodFree)
    (hes : w.Has es) (hfree : Assoc.MethodFree (es.map fun e => (e.1.value, e.2))) :
    (t.insertAll es).assoc = t.assoc.writeAll (es.map fun e => (e.1.value, e.2)) := by
  induction es generalizing t with
  | nil => rfl
  | cons e es ih =>
    obtain ⟨he, hes⟩ := List.forall_mem_cons.1 hes
    obtain ⟨hk, hfree⟩ := List.forall_mem_cons.1 hfree
    have written := assoc_insert ht free he.1 e.2
    have step := ih (has_insert ht he.1 he.2) (written ▸ free.write hk) hes hfree
    rw [written] at step
    exact step

theorem assoc_merge {s : Table} (ht : w.Has t) (free : t.assoc.MethodFree) (hs : w.Has s)
    (hfree : s.assoc.MethodFree) : (t.merge s).assoc = t.assoc.writeAll s.assoc :=
  assoc_insertAll ht free hs hfree

theorem distinct_assoc (ht : w.Has t) (free : t.assoc.MethodFree) : t.assoc.Distinct := by
  refine List.pairwise_map.2 (t.pairwise_entries.imp_of_mem fun {e f} he hf h => ?_)
  rwa [same_entry ht free (has_key ht hf) e he] at h

end

end Keyed

end ObjectModel
