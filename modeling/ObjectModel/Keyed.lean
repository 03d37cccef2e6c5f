import Std.Data.TreeMap
import ObjectModel.Key

/-!
# Keyed contents

Associations of keys with values in insertion order. Each gets a stamp, greater
than all stamps before it, and an index lists for each hash code the stamps of
the keys that have it. So a look-up examines no other key, and removing a key
touches no other entry of the index. No two keys are the same.

Main statements: `place?_eq` says that the index finds what a search through
`entries` finds, and `entries_insert_of_not_contains`, `entries_insert_of_place`
and `entries_erase_of_place` say what writing does to the entries.
-/

namespace ObjectModel

/-- An association with its stamp. -/
structure Slot (β : Type) where
  stamp : Nat
  key : Key
  value : β

namespace Slot

variable {β : Type}

def entry (s : Slot β) : Key × β := (s.key, s.value)

/-- The stamps of the keys that have a hash code. -/
def stampsOf (code : Int64) (slots : List (Slot β)) : List Nat :=
  (slots.filter (·.key.hash == code)).map (·.stamp)

/-- The place of a stamp between two places of ascending stamps. -/
def search (slots : Array (Slot β)) (stamp : Nat) : Nat → Nat → Nat → Nat
  | 0, lo, _ => lo
  | fuel + 1, lo, hi =>
    if hi ≤ lo then lo
    else
      match slots[(lo + hi) / 2]? with
      | some s =>
        if s.stamp < stamp then search slots stamp fuel ((lo + hi) / 2 + 1) hi
        else search slots stamp fuel lo ((lo + hi) / 2)
      | none => lo

/-- The place of a stamp among ascending stamps. -/
def placeOf (slots : Array (Slot β)) (stamp : Nat) : Nat :=
  search slots stamp slots.size 0 slots.size

theorem stampsOf_append (code : Int64) (xs ys : List (Slot β)) :
    stampsOf code (xs ++ ys) = stampsOf code xs ++ stampsOf code ys := by
  simp [stampsOf]

/-- The stamps depend on keys and stamps alone. -/
theorem stampsOf_modify (code : Int64) (xs : List (Slot β)) (place : Nat) (value : β) :
    stampsOf code (xs.modify place fun s => { s with value }) = stampsOf code xs := by
  induction xs generalizing place with
  | nil => simp
  | cons x xs ih =>
    cases place with
    | zero =>
      simp only [List.modify_zero_cons, stampsOf, List.filter_cons]
      split <;> rfl
    | succ place =>
      simp only [stampsOf] at ih
      simp only [List.modify_succ_cons, stampsOf, List.filter_cons]
      split <;> simp [ih]

/-- Changing a value changes neither a stamp nor a key. -/
theorem map_modify {γ : Type} (f : Nat → Key → γ) (xs : List (Slot β)) (place : Nat) (value : β) :
    (xs.modify place fun s => { s with value }).map (fun s => f s.stamp s.key) =
      xs.map fun s => f s.stamp s.key := by
  refine List.ext_getElem? fun i => ?_
  rw [List.getElem?_map, List.getElem?_map, List.getElem?_modify]
  split <;> simp [Function.comp_def]

/-- Dropping a slot drops its stamp, which comes up once. -/
theorem stampsOf_eraseIdx {xs : List (Slot β)} (ascending : xs.Pairwise (·.stamp < ·.stamp))
    {place : Nat} {s : Slot β} (hs : xs[place]? = some s) (code : Int64) :
    stampsOf code (xs.eraseIdx place) =
      if s.key.hash = code then (stampsOf code xs).erase s.stamp else stampsOf code xs := by
  obtain ⟨hp, he⟩ := List.getElem?_eq_some_iff.1 hs
  have hx : xs = xs.take place ++ s :: xs.drop (place + 1) := by
    rw [← he, List.getElem_cons_drop, List.take_append_drop]
  have hn : s.stamp ∉ stampsOf code (xs.take place) := fun hm => by
    obtain ⟨t, ht, hst⟩ := List.mem_map.1 hm
    rw [hx, List.pairwise_append] at ascending
    have := ascending.2.2 t (List.mem_filter.1 ht).1 s (List.mem_cons_self ..)
    omega
  have hall := congrArg (stampsOf code) hx
  rw [stampsOf_append] at hall
  rw [List.eraseIdx_eq_take_drop_succ, stampsOf_append, hall]
  simp only [stampsOf] at hn ⊢
  split
  · next h => simp [h, List.erase_append_right _ hn]
  · next h => simp [h]

theorem search_eq {slots : Array (Slot β)}
    (ascending : slots.toList.Pairwise (·.stamp < ·.stamp)) {place : Nat} {s : Slot β}
    (hs : slots[place]? = some s) (fuel lo hi : Nat) (hlo : lo ≤ place) (hhi : place ≤ hi)
    (hsize : hi ≤ slots.size) (hfuel : hi - lo ≤ fuel) :
    search slots s.stamp fuel lo hi = place := by
  obtain ⟨hp, rfl⟩ := Array.getElem?_eq_some_iff.1 hs
  have hlt {i j : Nat} (hi : i < slots.size) (hj : j < slots.size) (hij : i < j) :
      slots[i].stamp < slots[j].stamp := by
    simpa using List.pairwise_iff_getElem.1 ascending i j hi hj hij
  induction fuel generalizing lo hi with
  | zero => rw [search]; omega
  | succ fuel ih =>
    rw [search]
    split
    · omega
    · have hm : (lo + hi) / 2 < slots.size := by omega
      rw [Array.getElem?_eq_getElem hm]
      simp only
      split
      · next h =>
        have : (lo + hi) / 2 < place := by
          by_cases hc : place < (lo + hi) / 2
          · have := hlt hp hm hc
            omega
          · rcases Nat.lt_or_eq_of_le (Nat.not_lt.1 hc) with h' | h'
            · exact h'
            · simp [h'] at h
        exact ih _ _ (by omega) hhi hsize (by omega)
      · next h =>
        have : place ≤ (lo + hi) / 2 := by
          by_cases hc : (lo + hi) / 2 < place
          · exact absurd (hlt hm hp hc) h
          · omega
        exact ih _ _ hlo this (by omega) (by omega)

/-- The place of a stamp is where it stands. -/
theorem placeOf_eq {slots : Array (Slot β)}
    (ascending : slots.toList.Pairwise (·.stamp < ·.stamp)) {place : Nat} {s : Slot β}
    (hs : slots[place]? = some s) : placeOf slots s.stamp = place := by
  obtain ⟨hp, _⟩ := Array.getElem?_eq_some_iff.1 hs
  exact search_eq ascending hs _ _ _ (Nat.zero_le _) (Nat.le_of_lt hp) (Nat.le_refl _) (by omega)

/-- Among the slots with the code that a search asks for, the first that
satisfies it is the first of all slots that does. -/
theorem findSome?_stampsOf (p : Slot β → Bool) (code : Int64)
    (hp : ∀ s, p s = true → s.key.hash = code) (at? : Nat → Option (Slot β)) (place : Nat → Nat)
    (before slots : List (Slot β)) (hat : ∀ i, at? i = (before ++ slots)[i]?)
    (hplace : ∀ i s, at? i = some s → place s.stamp = i) :
    (stampsOf code slots).findSome? (fun stamp =>
        if (at? (place stamp)).any p then some (place stamp) else none) =
      (slots.findIdx? p).map (before.length + ·) := by
  induction slots generalizing before with
  | nil => rfl
  | cons s slots ih =>
    have hhere : at? before.length = some s := by simp [hat]
    have hs : place s.stamp = before.length := hplace _ _ hhere
    have ih := ih (before ++ [s]) (by simpa using hat)
    simp only [List.length_append, List.length_cons, List.length_nil] at ih
    rw [List.findIdx?_cons]
    simp only [stampsOf, List.filter_cons] at ih ⊢
    split
    · rw [List.map_cons, List.findSome?_cons, hs, hhere, Option.any_some]
      cases he : p s with
      | true => simp
      | false =>
        simp only [Bool.false_eq_true, ↓reduceIte, ih, Option.map_map]
        congr 1
        funext i
        simp only [Function.comp_apply]
        omega
    · next hc =>
      have he : p s = false := by
        cases he : p s with
        | true => exact absurd (by simpa using hp s he) hc
        | false => rfl
      simp only [he, Bool.false_eq_true, ↓reduceIte, ih, Option.map_map]
      congr 1
      funext i
      simp only [Function.comp_apply]
      omega

end Slot

/-- Associations of keys with values, in insertion order. -/
structure Keyed (β : Type) where
  slots : Array (Slot β)
  /-- the next stamp -/
  fresh : Nat
  /-- the stamps of the keys that have a hash code -/
  index : Std.TreeMap Int64 (List Nat)
  ascending : slots.toList.Pairwise (·.stamp < ·.stamp)
  lt_fresh : ∀ s ∈ slots.toList, s.stamp < fresh
  index_eq : ∀ code, index.getD code [] = Slot.stampsOf code slots.toList
  distinct : slots.toList.Pairwise fun s t => s.key.same t.key = false

namespace Keyed

variable {β : Type}

def empty : Keyed β :=
  ⟨#[], 0, ∅, List.Pairwise.nil, fun _ h => by simp at h, fun _ => by simp [Slot.stampsOf],
    List.Pairwise.nil⟩

instance : EmptyCollection (Keyed β) := ⟨empty⟩

instance : Inhabited (Keyed β) := ⟨empty⟩

def entries (t : Keyed β) : List (Key × β) := t.slots.toList.map (·.entry)

def keys (t : Keyed β) : List Key := t.entries.map (·.1)

def values (t : Keyed β) : List β := t.entries.map (·.2)

def size (t : Keyed β) : Nat := t.slots.size

def isEmpty (t : Keyed β) : Bool := t.slots.isEmpty

def entryAt? (t : Keyed β) (place : Nat) : Option (Key × β) := t.slots[place]?.map (·.entry)

def place? (t : Keyed β) (key : Key) : Option Nat :=
  (t.index.getD key.hash []).findSome? fun stamp =>
    let place := Slot.placeOf t.slots stamp
    if t.slots[place]?.any (·.key.same key) then some place else none

def find? (t : Keyed β) (key : Key) : Option β :=
  ((t.place? key).bind t.entryAt?).map (·.2)

def contains (t : Keyed β) (key : Key) : Bool := (t.place? key).isSome

@[simp] theorem entries_empty : (∅ : Keyed β).entries = [] := rfl

@[simp] theorem length_entries (t : Keyed β) : t.entries.length = t.size := by simp [entries, size]

theorem entryAt?_eq (t : Keyed β) (place : Nat) : t.entryAt? place = t.entries[place]? := by
  simp [entryAt?, entries]

theorem place?_eq (t : Keyed β) (key : Key) :
    t.place? key = t.entries.findIdx? (·.1.same key) := by
  have h := Slot.findSome?_stampsOf (fun s => s.key.same key) key.hash
    (fun s hs => by simpa using (Bool.and_eq_true_iff.1 hs).1) (t.slots[·]?)
    (Slot.placeOf t.slots) [] t.slots.toList (fun i => by simp)
    (fun i s hs => Slot.placeOf_eq t.ascending hs)
  simpa [place?, t.index_eq, entries, List.findIdx?_map, Slot.entry, Function.comp_def] using h

theorem place?_of_split {t : Keyed β} {key : Key} {front back : List (Key × β)} {e : Key × β}
    (h : t.entries = front ++ e :: back) (hf : ∀ f ∈ front, f.1.same key = false)
    (he : e.1.same key = true) : t.place? key = some front.length := by
  have none_before : front.findIdx? (·.1.same key) = none := by simpa using hf
  rw [place?_eq, h, List.findIdx?_append, none_before, List.findIdx?_cons, if_pos he]
  simp

theorem find?_eq (t : Keyed β) (key : Key) :
    t.find? key = (t.entries.find? (·.1.same key)).map (·.2) := by
  have h : t.entryAt? = (t.entries[·]?) := funext t.entryAt?_eq
  rw [find?, place?_eq, List.find?_eq_bind_findIdx?_getElem?, h]

theorem contains_eq (t : Keyed β) (key : Key) :
    t.contains key = t.entries.any (·.1.same key) := by
  rw [contains, place?_eq, List.findIdx?_isSome]

theorem contains_iff {t : Keyed β} {key : Key} :
    t.contains key = true ↔ ∃ e ∈ t.entries, e.1.same key = true := by
  rw [contains_eq, List.any_eq_true]

theorem isSome_find? (t : Keyed β) (key : Key) : (t.find? key).isSome = t.contains key := by
  rw [find?_eq, contains_eq, Option.isSome_map, List.isSome_find?]

theorem mem_values_of_find? {t : Keyed β} {key : Key} {v : β} (h : t.find? key = some v) :
    v ∈ t.values := by
  rw [find?_eq, Option.map_eq_some_iff] at h
  obtain ⟨e, he, rfl⟩ := h
  exact List.mem_map_of_mem (List.mem_of_find?_eq_some he)

/-- No two keys are the same. -/
theorem pairwise_entries (t : Keyed β) : t.entries.Pairwise fun e f => e.1.same f.1 = false := by
  rw [entries, List.pairwise_map]
  exact t.distinct

/-- Adds an association at the end. -/
def push (t : Keyed β) (key : Key) (value : β) (absent : t.contains key = false) : Keyed β :=
  match t with
  | ⟨slots, fresh, index, ascending, lt_fresh, index_eq, distinct⟩ =>
    let stamps := index.getD key.hash [] ++ [fresh]
    { slots := slots.push ⟨fresh, key, value⟩
      fresh := fresh + 1
      index := index.insert key.hash stamps
      ascending := by
        rw [Array.toList_push, List.pairwise_append]
        exact ⟨ascending, List.pairwise_singleton .., fun s hs _ ht => by
          rw [List.mem_singleton.1 ht]; exact lt_fresh s hs⟩
      lt_fresh := fun s hs => by
        rcases List.mem_append.1 (Array.toList_push ▸ hs) with h | h
        · exact Nat.lt_succ_of_lt (lt_fresh s h)
        · rw [List.mem_singleton.1 h]; exact Nat.lt_succ_self _
      index_eq := fun code => by
        rw [Std.TreeMap.getD_insert, Array.toList_push, Slot.stampsOf_append, index_eq]
        by_cases h : key.hash = code <;> simp [stamps, index_eq, h, Slot.stampsOf]
      distinct := by
        rw [contains_eq, List.any_eq_false] at absent
        rw [Array.toList_push, List.pairwise_append]
        exact ⟨distinct, List.pairwise_singleton .., fun s hs _ ht => by
          rw [List.mem_singleton.1 ht]
          simpa [Slot.entry] using absent s.entry (List.mem_map_of_mem hs)⟩ }

def overwrite : Keyed β → Nat → β → Keyed β
  | ⟨slots, fresh, index, ascending, lt_fresh, index_eq, distinct⟩, place, value =>
    { slots := slots.modify place fun s => { s with value }
      fresh := fresh
      index := index
      ascending := by
        rw [← List.pairwise_map (R := (· < ·))] at ascending ⊢
        rwa [Array.toList_modify, Slot.map_modify fun stamp _ => stamp]
      lt_fresh := fun s hs => by
        have hm := List.mem_map_of_mem (f := Slot.stamp) hs
        rw [Array.toList_modify, Slot.map_modify fun stamp _ => stamp] at hm
        obtain ⟨t, ht, he⟩ := List.mem_map.1 hm
        exact he ▸ lt_fresh t ht
      index_eq := fun code => by
        rw [index_eq, Array.toList_modify, Slot.stampsOf_modify]
      distinct := by
        rw [← List.pairwise_map (R := fun k l => Key.same k l = false)] at distinct ⊢
        rwa [Array.toList_modify, Slot.map_modify fun _ key => key] }

/-- Writing an existing key replaces its value and keeps its place and the key
first written; a new key goes to the end. -/
def insert (t : Keyed β) (key : Key) (value : β) : Keyed β :=
  match h : t.place? key with
  | some i => t.overwrite i value
  | none => t.push key value (by simp [contains, h])

/-- Writes the entries of a list in their order. -/
def insertAll (t : Keyed β) (es : List (Key × β)) : Keyed β :=
  es.foldl (fun t e => t.insert e.1 e.2) t

def ofEntries (es : List (Key × β)) : Keyed β := insertAll ∅ es

/-- Writes the entries of another in their order. -/
def merge (t other : Keyed β) : Keyed β := t.insertAll other.entries

/-- Removes the association at a place and closes the gap. -/
def eraseAt (t : Keyed β) (place : Nat) : Keyed β :=
  match t with
  | ⟨slots, fresh, index, ascending, lt_fresh, index_eq, distinct⟩ =>
    match h : slots[place]? with
    | none => ⟨slots, fresh, index, ascending, lt_fresh, index_eq, distinct⟩
    | some s =>
      let stamps := (index.getD s.key.hash []).erase s.stamp
      { slots := slots.eraseIdxIfInBounds place
        fresh := fresh
        index := index.insert s.key.hash stamps
        ascending := by
          rw [Array.toList_eraseIdxIfInBounds]
          exact ascending.sublist (List.eraseIdx_sublist ..)
        lt_fresh := fun t ht => by
          rw [Array.toList_eraseIdxIfInBounds] at ht
          exact lt_fresh t (List.mem_of_mem_eraseIdx ht)
        index_eq := fun code => by
          rw [Std.TreeMap.getD_insert, Array.toList_eraseIdxIfInBounds,
            Slot.stampsOf_eraseIdx ascending (by simpa using h), index_eq]
          by_cases hc : s.key.hash = code <;> simp [stamps, index_eq, hc]
        distinct := by
          rw [Array.toList_eraseIdxIfInBounds]
          exact distinct.sublist (List.eraseIdx_sublist ..) }

/-- Removing a key closes the gap. -/
def erase (t : Keyed β) (key : Key) : Keyed β :=
  match t.place? key with
  | some i => t.eraseAt i
  | none => t

@[simp] theorem entries_push (t : Keyed β) (key : Key) (value : β)
    (absent : t.contains key = false) :
    (t.push key value absent).entries = t.entries ++ [(key, value)] := by
  simp [push, entries, Slot.entry]

@[simp] theorem entries_overwrite (t : Keyed β) (place : Nat) (value : β) :
    (t.overwrite place value).entries = t.entries.modify place fun e => (e.1, value) := by
  refine List.ext_getElem? fun i => ?_
  simp only [overwrite, entries, Array.toList_modify, List.getElem?_map, List.getElem?_modify]
  split <;> simp [Slot.entry, Function.comp_def]

@[simp] theorem entries_eraseAt (t : Keyed β) (place : Nat) :
    (t.eraseAt place).entries = t.entries.eraseIdx place := by
  unfold eraseAt entries
  split
  split
  · next h =>
    rw [List.eraseIdx_of_length_le]
    simpa using h
  · simp [List.eraseIdx_eq_take_drop_succ]

theorem entries_insert_of_place {t : Keyed β} {key : Key} {i : Nat} (value : β)
    (h : t.place? key = some i) :
    (t.insert key value).entries = t.entries.modify i fun e => (e.1, value) := by
  unfold insert
  split
  · next j hj =>
    cases h.symm.trans hj
    simp
  · next hn => cases h.symm.trans hn

theorem entries_insert_of_not_contains {t : Keyed β} {key : Key} (value : β)
    (h : t.contains key = false) : (t.insert key value).entries = t.entries ++ [(key, value)] := by
  have h : t.place? key = none := by simpa [contains] using h
  unfold insert
  split
  · next j hj => cases h.symm.trans hj
  · simp

theorem entries_erase_of_place {t : Keyed β} {key : Key} {i : Nat} (h : t.place? key = some i) :
    (t.erase key).entries = t.entries.eraseIdx i := by
  simp [erase, h]

theorem erase_of_not_contains {t : Keyed β} {key : Key} (h : t.contains key = false) :
    t.erase key = t := by
  have h : t.place? key = none := by simpa [contains] using h
  simp [erase, h]

/-- Writing keys that are new and differ from each other appends them. -/
theorem entries_insertAll_of_distinct {t : Keyed β} {es : List (Key × β)}
    (absent : ∀ e ∈ es, t.contains e.1 = false)
    (distinct : es.Pairwise fun e f => e.1.same f.1 = false) :
    (t.insertAll es).entries = t.entries ++ es := by
  induction es generalizing t with
  | nil => simp [insertAll]
  | cons e es ih =>
    obtain ⟨he, hes⟩ := List.pairwise_cons.1 distinct
    have hi := entries_insert_of_not_contains e.2 (absent e (List.mem_cons_self ..))
    have hn : ∀ f ∈ es, (t.insert e.1 e.2).contains f.1 = false := fun f hf => by
      have hf' := absent f (List.mem_cons_of_mem _ hf)
      rw [contains_eq] at hf' ⊢
      simp [hi, hf', he f hf]
    simpa [insertAll, hi] using ih hn hes

theorem entries_ofEntries {es : List (Key × β)}
    (distinct : es.Pairwise fun e f => e.1.same f.1 = false) : (ofEntries es).entries = es := by
  have h := entries_insertAll_of_distinct (t := ∅) (fun _ _ => by simp [contains_eq]) distinct
  simpa [ofEntries] using h

end Keyed

end ObjectModel
