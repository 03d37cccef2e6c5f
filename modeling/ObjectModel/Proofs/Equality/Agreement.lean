import ObjectModel.Heap.Order
import ObjectModel.Proofs.Equality.Total
import ObjectModel.Proofs.Live

/-!
# What a comparison does not read

A comparison of two values reads of the lists only those that the values lead
to. So it answers in the same way in heaps that differ elsewhere.

Main statements: `AgreeOn.compare_eq`, for two heaps that store the same as far
as some values lead, `compare_of_contents`, for two heaps with the same contents,
and `compare_putList`, for a list that is changed.
-/

namespace ObjectModel

namespace Value

variable {S : Value → Prop} {equal equal' : Value → Value → Bool}
  {leaf leaf' : Value → Value → Except Fault Bool} {op : Comparison}

theorem compareAllWith_congr {xs ys : List Value}
    (equals : ∀ x ∈ xs, ∀ y ∈ ys, equal x y = equal' x y)
    (compares : ∀ x ∈ xs, ∀ y ∈ ys,
      x.compareWith equal leaf op y = x.compareWith equal' leaf' op y) :
    compareAllWith equal leaf op xs ys = compareAllWith equal' leaf' op xs ys := by
  induction xs generalizing ys with
  | nil => cases ys <;> rfl
  | cons x xs ih =>
    cases ys with
    | nil => rfl
    | cons y ys =>
      simp only [List.forall_mem_cons] at equals compares
      rw [compareAllWith, compareAllWith, equals.1.1, compares.1.1,
        ih (fun x hx => (equals.2 x hx).2) fun x hx => (compares.2 x hx).2]

/-- A comparison depends only on what it is told of values that tuples lead to. -/
theorem compareWith_congr (parts : ∀ {tag xs}, S (.tuple tag xs) → ∀ x ∈ xs, S x)
    (equals : ∀ {a b}, S a → S b → equal a b = equal' a b)
    (leaves : ∀ {a b}, S a → S b → leaf a b = leaf' a b) {a b : Value} (ha : S a) (hb : S b) :
    a.compareWith equal leaf op b = a.compareWith equal' leaf' op b := by
  induction a using inductParts generalizing b with
  | step a ih =>
    cases a with
    | tuple tag xs =>
      cases b with
      | tuple tag' ys =>
        exact compareAllWith_congr (fun x hx y hy => equals (parts ha x hx) (parts hb y hy))
          fun x hx y hy => ih x hx (parts ha x hx) (parts hb y hy)
      | _ => exact leaves ha hb
    | _ => exact leaves ha hb

end Value

namespace Heap

-- ---------------------------------------------------------------------------
-- Contents
-- ---------------------------------------------------------------------------

section
variable {h : Heap} {equal equal' : Value → Value → Bool}

theorem listsEqual_congr {xs ys : List Value} (same : ∀ x ∈ xs, ∀ y ∈ ys, equal x y = equal' x y) :
    listsEqual equal xs ys = listsEqual equal' xs ys := by
  induction xs generalizing ys with
  | nil => cases ys <;> rfl
  | cons x xs ih =>
    cases ys with
    | nil => rfl
    | cons y ys =>
      simp only [List.forall_mem_cons] at same
      rw [listsEqual, listsEqual, same.1.1, ih fun x hx => (same.2 x hx).2]

/-- What is asked of each entry and of the value that another dict has for its key. -/
theorem entriesEqual_congr {s t : Table} {ask ask' : Key × Value → Value → Bool}
    (same : ∀ e ∈ s.entries, ∀ v ∈ t.values, ask e v = ask' e v) :
    (s.entries.all fun e => match t.find? e.1 with | some v => ask e v | none => false) =
      s.entries.all fun e => match t.find? e.1 with | some v => ask' e v | none => false := by
  rw [Bool.eq_iff_iff, List.all_eq_true, List.all_eq_true]
  refine forall₂_congr fun e he => ?_
  cases found : t.find? e.1 with
  | none => rfl
  | some v => exact Bool.eq_iff_iff.1 (same e he v (Keyed.mem_values_of_find? found))

/-- Contents are compared by comparing what is held. -/
theorem contentsEqual_congr {a b : Value} (same : ∀ x ∈ h.held a, ∀ y ∈ h.held b,
    equal x y = equal' x y ∧ equal y x = equal' y x) :
    h.contentsEqual equal a b = h.contentsEqual equal' a b := by
  cases a with
  | list r =>
    cases b with
    | list s => exact listsEqual_congr fun x hx y hy => (same x hx y hy).1
    | _ => rfl
  | dict r =>
    cases b with
    | dict s =>
      exact congrArg (_ && ·) (entriesEqual_congr fun e he v hv =>
        (same e.2 (List.mem_map_of_mem he) v hv).1)
    | _ => rfl
  | view tag p r =>
    cases b with
    | view tag' q s =>
      cases p <;> cases q <;> try rfl
      exact congrArg (_ && ·) (entriesEqual_congr fun e he v hv =>
        (same e.2 (List.mem_map_of_mem he) v hv).2)
    | _ => rfl
  | _ => cases b <;> rfl

end

-- ---------------------------------------------------------------------------
-- Heaps that agree
-- ---------------------------------------------------------------------------

/-- Certain values lead to no others, and two heaps store the same, but for
other lists. -/
structure AgreeOn (S : Value → Prop) (h h' : Heap) : Prop where
  reads : ∀ {a x}, S a → h.Reads a x → S x
  list : ∀ {r}, S (.list r) → h'.list r = h.list r
  dicts : h'.dicts = h.dicts
  sets : h'.sets = h.sets
  bytearrays : h'.bytearrays = h.bytearrays
  depth : h'.depth = h.depth

namespace AgreeOn

variable {S : Value → Prop} {h h' : Heap} {op : Comparison} {a b : Value}

theorem parts (agree : AgreeOn S h h') {tag : Tag} {xs : List Value} (ht : S (.tuple tag xs)) :
    ∀ x ∈ xs, S x :=
  fun _ hx => agree.reads ht (.tuple hx)

theorem held (agree : AgreeOn S h h') (ha : S a) {x : Value} (hx : x ∈ h.held a) : S x := by
  have values {r : Ref .dict} (hr : S (.dict r)) (hx : x ∈ (h.dict r).values) : S x := by
    obtain ⟨e, he, rfl⟩ := List.mem_map.1 hx
    exact agree.reads hr (.dict he)
  cases a with
  | list r => exact agree.reads ha (.list hx)
  | dict r => exact values ha hx
  | view tag p r =>
    cases p with
    | items => exact values (agree.reads ha .view) hx
    | _ => cases hx
  | _ => cases hx

theorem contentsEqual_eq (agree : AgreeOn S h h') (equal : Value → Value → Bool) (ha : S a)
    (hb : S b) : h'.contentsEqual equal a b = h.contentsEqual equal a b := by
  cases a <;> cases b <;>
    simp only [contentsEqual, bytesOf?, dict, set, bytearray, agree.dicts, agree.sets,
      agree.bytearrays]
  rw [agree.list ha, agree.list hb]

theorem equalsAt_eq (agree : AgreeOn S h h') (n : Nat) (ha : S a) (hb : S b) :
    h'.equalsAt n a b = h.equalsAt n a b := by
  induction n generalizing a b with
  | zero => rfl
  | succ n ih =>
    refine Value.equalsWith_congr (descends_of_reads agree.reads) (fun {a b} hs _ => ?_) ⟨ha, hb⟩
    refine (agree.contentsEqual_eq _ hs.1 hs.2).trans (contentsEqual_congr fun x hx y hy => ?_)
    have hx := agree.held hs.1 hx
    have hy := agree.held hs.2 hy
    exact ⟨ih hx hy, ih hy hx⟩

theorem equals_eq (agree : AgreeOn S h h') (ha : S a) (hb : S b) :
    h'.equals a b = h.equals a b := by
  rw [equals, equals, agree.depth, agree.equalsAt_eq _ ha hb]

theorem compareLeaf_eq (agree : AgreeOn S h h') :
    h'.compareLeaf op a b = h.compareLeaf op a b := by
  simp only [compareLeaf, bytesOf?, set, bytearray, agree.sets, agree.bytearrays]

theorem compareStored_eq (agree : AgreeOn S h h') (n : Nat) (ha : S a) (hb : S b) :
    h'.compareStored op n a b = h.compareStored op n a b := by
  induction n generalizing a b with
  | zero => rfl
  | succ n ih =>
    cases a with
    | list r =>
      cases b with
      | list s =>
        rw [compareStored, compareStored, agree.list ha, agree.list hb]
        have left {x : Value} (hx : x ∈ h.list r) : S x := agree.reads ha (.list hx)
        have right {y : Value} (hy : y ∈ h.list s) : S y := agree.reads hb (.list hy)
        refine Value.compareAllWith_congr (fun x hx y hy => agree.equals_eq (left hx) (right hy))
          fun x hx y hy => ?_
        exact Value.compareWith_congr agree.parts agree.equals_eq ih
          (left hx) (right hy)
      | _ => exact agree.compareLeaf_eq
    | _ => exact agree.compareLeaf_eq

theorem compare_eq (agree : AgreeOn S h h') (ha : S a) (hb : S b) :
    h'.compare op a b = h.compare op a b := by
  rw [compare, compare, agree.depth]
  exact Value.compareWith_congr agree.parts agree.equals_eq
    (agree.compareStored_eq _) ha hb

end AgreeOn

/-- Cursors, files and tags are not read. -/
theorem agreeOn_of_contents {h h' : Heap} (same : h'.contents = h.contents) :
    AgreeOn (fun _ => True) h h' := by
  simp only [contents, Prod.mk.injEq] at same
  obtain ⟨lists, dicts, sets, bytearrays⟩ := same
  exact
    { reads := fun _ _ => trivial
      list := fun _ => by rw [list, list, lists]
      dicts, sets, bytearrays
      depth := by rw [depth, depth, lists, dicts] }

theorem compare_of_contents {h h' : Heap} {op : Comparison} {a b : Value}
    (same : h'.contents = h.contents) : h'.compare op a b = h.compare op a b :=
  (agreeOn_of_contents same).compare_eq trivial trivial

-- ---------------------------------------------------------------------------
-- One list
-- ---------------------------------------------------------------------------

/-- Comparing the value does not read the list. -/
def Apart (h : Heap) (r : Ref .list) (a : Value) : Prop :=
  ¬Relation.ReflTransGen h.Reads a (.list r)

theorem agreeOn_putList {h : Heap} {r : Ref .list} (inside : r.index < h.lists.size)
    (xs : List Value) : AgreeOn (h.Apart r) h (h.putList r xs) where
  reads ha hr := fun hx => ha (hx.head hr)
  list hs := h.list_putList_of_ne xs fun e => hs (e ▸ .refl)
  dicts := rfl
  sets := rfl
  bytearrays := rfl
  depth := by rw [depth, putList, Store.size_set_of_lt _ _ inside]; rfl

/-- Values that do not lead to a list are compared as they are without it. -/
theorem compare_putList {h : Heap} {r : Ref .list} (inside : r.index < h.lists.size)
    (xs : List Value) {op : Comparison} {a b : Value} (ha : h.Apart r a) (hb : h.Apart r b) :
    (h.putList r xs).compare op a b = h.compare op a b :=
  (agreeOn_putList inside xs).compare_eq ha hb

end Heap

end ObjectModel
