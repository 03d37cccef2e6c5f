import Mathlib.Data.Finset.Sum
import Mathlib.Logic.Relation
import ObjectModel.Proofs.Equality.Hash

/-!
# Equality is total on acyclic graphs

`Heap.tryEqualsAt` is equality as it runs: lengths are compared first, a key is
hashed anew to be looked up, keys of one code are compared as values are, and
whatever fails ends the comparison. Its only bound is the depth of the
recursion, whose end is a fault.

Main statement: `tryEqualsAt_eq`. Where the graph below a value has no cycle,
each container on a path is new, so the recursion ends before the bound, nothing
fails on the way, and the answer is that of `Heap.equals`.
-/

namespace ObjectModel.Heap

-- ---------------------------------------------------------------------------
-- Equality as it runs
-- ---------------------------------------------------------------------------

section
variable {β : Type} (equal : Value → Value → Except Fault Bool)

/-- Looks a key up among entries; keys of other codes are not compared. -/
def tryFind (key : Key) : List (Key × β) → Except Fault (Option β)
  | [] => .ok none
  | e :: es =>
    if e.1.hash = key.hash then do
      if ← equal e.1.value key.value then return some e.2 else tryFind key es
    else tryFind key es

/-- Looks a value up as a key; an unhashable one is a fault. -/
def tryLookup (t : Keyed β) (v : Value) : Except Fault (Option β) :=
  match Key.ofValue v with
  | .ok key => tryFind equal key t.entries
  | .error c => .error (.cause c)

/-- All items pass a test that can fail, asked up to the first that does not. -/
def tryAll {α : Type} (test : α → Except Fault Bool) : List α → Except Fault Bool
  | [] => .ok true
  | x :: xs => do if ← test x then tryAll test xs else .ok false

/-- The dict has the key, with a value equal to the one given. -/
def tryEntry (t : Table) (e : Key × Value) : Except Fault Bool := do
  match ← tryLookup equal t e.1.value with
  | some v => equal e.2 v
  | none => .ok false

/-- The dict has the pair; what cannot be looked up is not in it, but for a
gap. -/
def tryItem (t : Table) (e : Key × Value) : Except Fault Bool :=
  match tryLookup equal t e.1.value with
  | .ok (some v) => equal v e.2
  | .ok none | .error (.cause _) => .ok false
  | .error f => .error f

def tryContents (h : Heap) : Value → Value → Except Fault Bool
  | .list r, .list s =>
    if (h.list r).length = (h.list s).length then
      tryAll (fun p => equal p.1 p.2) ((h.list r).zip (h.list s))
    else .ok false
  | .dict r, .dict s =>
    if (h.dict r).size = (h.dict s).size then tryAll (tryEntry equal (h.dict s)) (h.dict r).entries
    else .ok false
  | .set r, .set s =>
    if (h.set r).size = (h.set s).size then
      tryAll (fun k => (tryFind equal k (h.set s).entries).map (·.isSome)) (h.set r).keys
    else .ok false
  | .view _ .keys r, .view _ .keys s =>
    if (h.dict r).size = (h.dict s).size then
      tryAll (fun k => (tryLookup equal (h.dict s) k.value).map (·.isSome)) (h.dict r).keys
    else .ok false
  | .view _ .items r, .view _ .items s =>
    if (h.dict r).size = (h.dict s).size then tryAll (tryItem equal (h.dict s)) (h.dict r).entries
    else .ok false
  | .view .., .view .. => .ok false
  | a, b =>
    match h.bytesOf? a, h.bytesOf? b with
    | some x, some y => .ok (x == y)
    | _, _ => .ok false

end

/-- Compares two values, descending through at most so many containers. -/
def tryEqualsAt (h : Heap) : Nat → Value → Value → Except Fault Bool
  | 0 => Value.tryEqualsWith fun _ _ => .error .unbounded
  | n + 1 => Value.tryEqualsWith (h.tryContents (h.tryEqualsAt n))

-- ---------------------------------------------------------------------------
-- Keys are compared without fail
-- ---------------------------------------------------------------------------

section
variable {equal : Value → Value → Except Fault Bool}

theorem tryAll_eq {α : Type} {test : α → Except Fault Bool} {p : α → Bool} {xs : List α}
    (h : ∀ x ∈ xs, test x = .ok (p x)) : tryAll test xs = .ok (xs.all p) := by
  induction xs with
  | nil => rfl
  | cons x xs ih =>
    have hx := h x (List.mem_cons_self ..)
    have hxs := ih fun x hx => h x (List.mem_cons_of_mem _ hx)
    simp only [tryAll, hx, hxs, List.all_cons]
    cases p x <;> rfl

/-- The comparison decides keys as `Key.same` does. -/
def DecidesKeys (equal : Value → Value → Except Fault Bool) : Prop :=
  ∀ k l : Key, equal k.value l.value = .ok (k.value.sameKey l.value)

theorem tryFind_eq {β : Type} (keys : DecidesKeys equal) (key : Key) (es : List (Key × β)) :
    tryFind equal key es = .ok ((es.find? (·.1.same key)).map (·.2)) := by
  induction es with
  | nil => rfl
  | cons e es ih =>
    by_cases hc : e.1.hash = key.hash
    · simp only [tryFind, hc, keys e.1 key, ih, List.find?_cons, Key.same]
      cases e.1.value.sameKey key.value <;> simp <;> rfl
    · simp [tryFind, hc, ih, Key.same]

theorem tryLookup_eq {β : Type} (keys : DecidesKeys equal) (t : Keyed β) (k : Key) :
    tryLookup equal t k.value = .ok (t.find? k) := by
  simp only [tryLookup, Key.ofValue_value, tryFind_eq keys, Keyed.find?_eq]

end

theorem decidesKeys_tryEqualsAt (h : Heap) (n : Nat) : DecidesKeys (h.tryEqualsAt (n + 1)) := by
  intro k l
  refine Value.tryEqualsWith_eq (Value.descends_hash .standard) ?_
    ⟨⟨_, k.hash_eq⟩, _, l.hash_eq⟩
  rintro a b ⟨⟨_, ha⟩, _, hb⟩ hm
  obtain ⟨_, _, _, _, rfl, rfl⟩ := Value.views_of_meets hm ha hb
  rfl

-- ---------------------------------------------------------------------------
-- The graph below a value
-- ---------------------------------------------------------------------------

/-- Comparing the one value descends to the other. -/
inductive Reads (h : Heap) : Value → Value → Prop
  | tuple : x ∈ items → Reads h (.tuple tag items) x
  | slice : x ∈ [start, stop, step] → Reads h (.slice tag start stop step) x
  | list : x ∈ h.list r → Reads h (.list r) x
  | dict : e ∈ (h.dict r).entries → Reads h (.dict r) e.2
  | view : Reads h (.view tag .items r) (.dict r)

/-- Comparing two values whose parts have a property descends to pairs that have it. -/
theorem descends_of_reads {h : Heap} {S : Value → Prop} (reads : ∀ {a x}, S a → h.Reads a x → S x) :
    Value.Descends fun a b => S a ∧ S b where
  tuple hs x hx y hy := ⟨reads hs.1 (.tuple hx), reads hs.2 (.tuple hy)⟩
  slice hs := by
    have part {u v : Value} (hu : h.Reads _ u) (hv : h.Reads _ v) : S u ∧ S v :=
      ⟨reads hs.1 hu, reads hs.2 hv⟩
    refine ⟨part (.slice ?_) (.slice ?_), part (.slice ?_) (.slice ?_),
      part (.slice ?_) (.slice ?_)⟩ <;> simp

/-- No value that can be reached from the value can be reached from itself. -/
def Acyclic (h : Heap) (a : Value) : Prop :=
  ∀ x, Relation.ReflTransGen h.Reads a x → ¬ Relation.TransGen h.Reads x x

theorem Acyclic.reads {h : Heap} {a x : Value} (ha : h.Acyclic a) (hr : h.Reads a x) :
    h.Acyclic x :=
  fun y hy => ha y (hy.head hr)

/-- A value that reads only what reads nothing is in no cycle. -/
theorem acyclic_of_leaves {h : Heap} {a : Value} (leaf : ∀ x, h.Reads a x → ∀ y, ¬ h.Reads x y) :
    h.Acyclic a := by
  intro x hx hc
  obtain ⟨y, hy, hc⟩ := Relation.TransGen.head'_iff.1 hc
  rcases hx.cases_head with rfl | ⟨z, hz, hx⟩
  · rcases hc.cases_head with he | ⟨z, hz, _⟩
    · exact leaf y hy y (he ▸ hy)
    · exact leaf y hy z hz
  · rcases hx.cases_head with rfl | ⟨u, hu, _⟩
    · exact leaf z hz y hy
    · exact leaf z hz u hu

/-- The containers whose content equality reads, by their numbers. -/
def containers (h : Heap) : Finset (Nat ⊕ Nat) :=
  (Finset.range h.lists.size).disjSum (Finset.range h.dicts.size)

def container : Nat ⊕ Nat → Value
  | .inl i => .list ⟨i⟩
  | .inr i => .dict ⟨i⟩

theorem card_containers (h : Heap) : h.containers.card + 1 = h.depth := by
  simp [containers, depth, Finset.card_disjSum]

open Classical in
/-- The containers that can be reached from a value. -/
noncomputable def below (h : Heap) (a : Value) : Finset (Nat ⊕ Nat) :=
  h.containers.filter fun c => Relation.ReflTransGen h.Reads a (container c)

theorem mem_below {h : Heap} {a : Value} {c : Nat ⊕ Nat} :
    c ∈ h.below a ↔ c ∈ h.containers ∧ Relation.ReflTransGen h.Reads a (container c) := by
  classical exact Finset.mem_filter

theorem card_below_lt (h : Heap) (a : Value) : (h.below a).card < h.depth := by
  have : h.below a ⊆ h.containers := fun c hc => (mem_below.1 hc).1
  have := Finset.card_le_card this
  have := h.card_containers
  omega

section
variable {h : Heap}

theorem below_subset {a x : Value} (hr : h.Reads a x) : h.below x ⊆ h.below a := fun _ hc => by
  rw [mem_below] at hc ⊢
  exact ⟨hc.1, hc.2.head hr⟩

theorem card_below_le {a x : Value} (hr : h.Reads a x) : (h.below x).card ≤ (h.below a).card :=
  Finset.card_le_card (below_subset hr)

/-- A container leaves itself behind. -/
theorem card_below_container {c : Nat ⊕ Nat} {v : Value} (hc : c ∈ h.containers)
    (hv : container c = v) (acyclic : h.Acyclic v) {x : Value} (hr : h.Reads v x) :
    (h.below x).card < (h.below v).card := by
  subst hv
  refine Finset.card_lt_card (Finset.ssubset_iff_subset_ne.2 ⟨below_subset hr, fun he => ?_⟩)
  have hself : c ∈ h.below (container c) := mem_below.2 ⟨hc, .refl⟩
  rw [← he, mem_below] at hself
  exact acyclic _ .refl (Relation.TransGen.head' hr hself.2)

theorem lt_size_of_mem_list {r : Ref .list} {x : Value} (hx : x ∈ h.list r) :
    r.index < h.lists.size := by
  by_contra hr
  rw [list, Store.get_of_size_le _ (Nat.not_lt.1 hr)] at hx
  cases hx

theorem mem_containers_of_list {r : Ref .list} {x : Value} (hx : x ∈ h.list r) :
    Sum.inl r.index ∈ h.containers := by
  rw [containers, Finset.inl_mem_disjSum, Finset.mem_range]
  exact lt_size_of_mem_list hx

theorem mem_containers_of_dict {r : Ref .dict} {e : Key × Value}
    (he : e ∈ (h.dict r).entries) : Sum.inr r.index ∈ h.containers := by
  rw [containers, Finset.inr_mem_disjSum, Finset.mem_range]
  by_contra hr
  rw [dict, Store.get_of_size_le _ (Nat.not_lt.1 hr)] at he
  cases he

/-- Neither a cycle nor more containers below than there are levels left. -/
structure Shallow (h : Heap) (n : Nat) (a : Value) : Prop where
  acyclic : h.Acyclic a
  card_lt : (h.below a).card < n

theorem Shallow.reads {n : Nat} {a x : Value} (ha : h.Shallow n a) (hr : h.Reads a x) :
    h.Shallow n x :=
  ⟨ha.acyclic.reads hr, (card_below_le hr).trans_lt ha.card_lt⟩

/-- What a container holds and its comparison descends to. -/
def held (h : Heap) : Value → List Value
  | .list r => h.list r
  | .dict r | .view _ .items r => (h.dict r).values
  | _ => []

theorem Shallow.dict {n : Nat} {r : Ref .dict} (ha : h.Shallow (n + 1) (.dict r)) {x : Value}
    (hx : x ∈ (h.dict r).values) : h.Shallow n x := by
  obtain ⟨e, he, rfl⟩ := List.mem_map.1 hx
  have := card_below_container (v := .dict r) (mem_containers_of_dict he) rfl ha.acyclic (.dict he)
  have := ha.card_lt
  exact ⟨ha.acyclic.reads (.dict he), by omega⟩

/-- What is held takes one level less. -/
theorem Shallow.held {n : Nat} {a x : Value} (ha : h.Shallow (n + 1) a) (hx : x ∈ h.held a) :
    h.Shallow n x := by
  cases a with
  | list r =>
    have := card_below_container (v := .list r) (mem_containers_of_list hx) rfl ha.acyclic (.list hx)
    have := ha.card_lt
    exact ⟨ha.acyclic.reads (.list hx), by omega⟩
  | dict r => exact ha.dict hx
  | view tag p r =>
    cases p with
    | items => exact (ha.reads .view).dict hx
    | _ => cases hx
  | _ => cases hx

theorem shallow_of_acyclic {a : Value} (ha : h.Acyclic a) : h.Shallow h.depth a :=
  ⟨ha, h.card_below_lt a⟩

end

-- ---------------------------------------------------------------------------
-- The comparison ends
-- ---------------------------------------------------------------------------

section
variable {h : Heap} {equal : Value → Value → Except Fault Bool} {equal' : Value → Value → Bool}

theorem listsEqual_eq_all {xs ys : List Value} (hlen : xs.length = ys.length) :
    listsEqual equal' xs ys = (xs.zip ys).all fun p => equal' p.1 p.2 := by
  induction xs generalizing ys with
  | nil => cases ys <;> first | rfl | cases hlen
  | cons x xs ih =>
    cases ys with
    | nil => cases hlen
    | cons y ys => simp [listsEqual, ih (Nat.succ.inj hlen)]

theorem listsEqual_of_length_ne {xs ys : List Value} (hlen : xs.length ≠ ys.length) :
    listsEqual equal' xs ys = false := by
  rw [Bool.eq_false_iff]
  exact fun h => hlen (listsEqual_iff.1 h).length_eq

/-- Comparing contents fails only where comparing keys or values does. -/
theorem tryContents_eq (keys : DecidesKeys equal) {a b : Value} (hm : Value.Meets a b)
    (values : ∀ x ∈ h.held a, ∀ y ∈ h.held b,
      equal x y = .ok (equal' x y) ∧ equal y x = .ok (equal' y x)) :
    h.tryContents equal a b = .ok (h.contentsEqual equal' a b) := by
  cases hm with
  | bytesBytearray | bytearrayBytes | bytearray => rfl
  | @list r s =>
    simp only [tryContents, contentsEqual]
    by_cases hlen : (h.list r).length = (h.list s).length
    · rw [if_pos hlen, listsEqual_eq_all hlen]
      refine tryAll_eq fun p hp => ?_
      exact (values p.1 (List.of_mem_zip hp).1 p.2 (List.of_mem_zip hp).2).1
    · rw [if_neg hlen, listsEqual_of_length_ne hlen]
  | @dict r s =>
    simp only [tryContents, contentsEqual, sameEntries]
    by_cases hsize : (h.dict r).size = (h.dict s).size
    · rw [if_pos hsize, hsize, beq_self_eq_true, Bool.true_and]
      refine tryAll_eq fun e he => ?_
      simp only [tryEntry, tryLookup_eq keys]
      cases hf : (h.dict s).find? e.1 with
      | none => rfl
      | some v => exact (values e.2 (List.mem_map_of_mem he) v (Keyed.mem_values_of_find? hf)).1
    · simp [hsize]
  | @set r s =>
    simp only [tryContents, contentsEqual, KeySet.same, KeySet.isSubset]
    by_cases hsize : (h.set r).size = (h.set s).size
    · rw [if_pos hsize, hsize, beq_self_eq_true, decide_eq_true (Nat.le_refl _), Bool.true_and,
        Bool.true_and]
      refine tryAll_eq fun k _ => ?_
      rw [tryFind_eq keys, ← Keyed.find?_eq]
      exact congrArg _ (Keyed.isSome_find? _ _)
    · simp [hsize]
  | @view _ p r _ q s =>
    cases p <;> cases q <;> try rfl
    · simp only [tryContents, contentsEqual, viewsEqual]
      by_cases hsize : (h.dict r).size = (h.dict s).size
      · rw [if_pos hsize, hsize, beq_self_eq_true, Bool.true_and]
        refine tryAll_eq fun k _ => ?_
        rw [tryLookup_eq keys]
        exact congrArg _ (Keyed.isSome_find? _ _)
      · simp [hsize]
    · simp only [tryContents, contentsEqual, viewsEqual]
      by_cases hsize : (h.dict r).size = (h.dict s).size
      · rw [if_pos hsize, hsize, beq_self_eq_true, Bool.true_and]
        refine tryAll_eq fun e he => ?_
        simp only [tryItem, tryLookup_eq keys]
        cases hf : (h.dict s).find? e.1 with
        | none => rfl
        | some v => exact (values e.2 (List.mem_map_of_mem he) v (Keyed.mem_values_of_find? hf)).2
      · simp [hsize]

end

/-- Where neither graph has a cycle, with levels enough, nothing fails. The
answer does not depend on the number of levels. -/
theorem tryEqualsAt_eq {h : Heap} {k n m : Nat} (hn : k ≤ n) (hm : k ≤ m) {a b : Value}
    (ha : h.Shallow k a) (hb : h.Shallow k b) :
    h.tryEqualsAt (n + 1) a b = .ok (h.equalsAt m a b) := by
  induction k generalizing n m a b with
  | zero => exact absurd ha.card_lt (Nat.not_lt_zero _)
  | succ k ih =>
    obtain ⟨n, rfl⟩ := Nat.exists_eq_add_of_le' hn
    obtain ⟨m, rfl⟩ := Nat.exists_eq_add_of_le' hm
    refine Value.tryEqualsWith_eq (descends_of_reads Shallow.reads) ?_ ⟨ha, hb⟩
    rintro a b ⟨ha, hb⟩ meets
    refine tryContents_eq (decidesKeys_tryEqualsAt h (n + k)) meets fun x hx y hy => ?_
    have hk := Nat.le_add_left k
    exact ⟨ih (hk n) (hk m) (ha.held hx) (hb.held hy), ih (hk n) (hk m) (hb.held hy) (ha.held hx)⟩

/-- Equality of values without cycles below them does not fail. -/
theorem tryEqualsAt_of_acyclic {h : Heap} {a b : Value} (ha : h.Acyclic a) (hb : h.Acyclic b)
    {n : Nat} (hn : h.depth < n) : h.tryEqualsAt n a b = .ok (h.equals a b) := by
  obtain ⟨n, rfl⟩ := Nat.exists_eq_add_of_le' hn
  exact tryEqualsAt_eq (Nat.le_add_left ..) (Nat.le_refl _) (shallow_of_acyclic ha)
    (shallow_of_acyclic hb)

end ObjectModel.Heap
