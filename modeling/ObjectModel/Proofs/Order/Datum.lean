import ObjectModel.Proofs.Encoding.Utf8
import ObjectModel.Text.Basic

/-!
# Data and their order

Numbers, texts and byte sequences, and lists and tuples of these. Data of one
sort are ordered, sequences by their first different items, else by their
lengths. Data of different sorts are not, and neither are sequences of which the
first different items are not.

Main statements: `order?_eq_iff`, `order?_swap` and `order?_trans`.
-/

namespace ObjectModel

/-- What plain values stand for. -/
inductive Datum where
  | number (n : Int)
  | text (chars : List Char)
  | bytes (data : List UInt8)
  | list (items : List Datum)
  | tuple (items : List Datum)

namespace Datum

mutual
def order? : Datum → Datum → Option Ordering
  | .number m, .number n => some (compare m n)
  | .text s, .text t => some (compare (Utf8.encode s) (Utf8.encode t))
  | .bytes x, .bytes y => some (compare x y)
  | .list xs, .list ys => orderAll? xs ys
  | .tuple xs, .tuple ys => orderAll? xs ys
  | _, _ => none

def orderAll? : List Datum → List Datum → Option Ordering
  | x :: xs, y :: ys =>
    match order? x y with
    | some .eq => orderAll? xs ys
    | o => o
  | [], [] => some .eq
  | [], _ :: _ => some .lt
  | _ :: _, [] => some .gt
end

/-- Induction over the items of data. -/
@[elab_as_elim] theorem induct {P : Datum → Prop} (number : ∀ n, P (.number n))
    (text : ∀ chars, P (.text chars)) (bytes : ∀ data, P (.bytes data))
    (list : ∀ items, (∀ d ∈ items, P d) → P (.list items))
    (tuple : ∀ items, (∀ d ∈ items, P d) → P (.tuple items)) : ∀ d, P d
  | .number n => number n
  | .text chars => text chars
  | .bytes data => bytes data
  | .list items => list items fun d _ => induct number text bytes list tuple d
  | .tuple items => tuple items fun d _ => induct number text bytes list tuple d

/-- What a datum nests. -/
def items : Datum → List Datum
  | .list items | .tuple items => items
  | _ => []

/-- Induction that does not tell the sorts of data apart. -/
@[elab_as_elim] theorem inductItems {P : Datum → Prop}
    (step : ∀ d, (∀ x ∈ d.items, P x) → P d) (d : Datum) : P d := by
  induction d using induct with
  | list items ih => exact step (.list items) ih
  | tuple items ih => exact step (.tuple items) ih
  | _ => exact step _ fun x hx => absurd hx List.not_mem_nil

variable {d e f x y : Datum} {xs ys zs : List Datum}

theorem orderAll?_cons_of_eq (h : order? x y = some .eq) :
    orderAll? (x :: xs) (y :: ys) = orderAll? xs ys := by
  rw [orderAll?, h]

theorem orderAll?_cons_of_ne (h : order? x y ≠ some .eq) :
    orderAll? (x :: xs) (y :: ys) = order? x y := by
  rw [orderAll?]
  split
  · next same => exact absurd same h
  · rfl

-- ---------------------------------------------------------------------------
-- Equal data
-- ---------------------------------------------------------------------------

theorem orderAll?_eq_iff (items : ∀ x ∈ xs, ∀ y, order? x y = some .eq ↔ x = y) :
    orderAll? xs ys = some .eq ↔ xs = ys := by
  induction xs generalizing ys with
  | nil => cases ys <;> simp [orderAll?]
  | cons x xs ih =>
    obtain ⟨hx, hxs⟩ := List.forall_mem_cons.1 items
    cases ys with
    | nil => simp [orderAll?]
    | cons y ys =>
      rw [List.cons.injEq, ← hx, ← ih hxs]
      by_cases same : order? x y = some .eq
      · rw [orderAll?_cons_of_eq same, and_iff_right same]
      · rw [orderAll?_cons_of_ne same]
        exact ⟨fun h => absurd h same, fun h => h.1⟩

/-- Data that compare as equal are the same. -/
theorem order?_eq_iff : order? d e = some .eq ↔ d = e := by
  induction d using induct generalizing e with
  | number n => cases e <;> simp [order?, Std.LawfulEqCmp.compare_eq_iff_eq]
  | text s =>
    cases e <;> simp only [order?, reduceCtorEq, Option.some.injEq, text.injEq,
      Std.LawfulEqCmp.compare_eq_iff_eq]
    exact ⟨Utf8.encode_inj, congrArg _⟩
  | bytes x => cases e <;> simp [order?, Std.LawfulEqCmp.compare_eq_iff_eq]
  | list xs ih =>
    cases e <;> simp only [order?, reduceCtorEq, list.injEq]
    exact orderAll?_eq_iff fun x hx y => ih x hx
  | tuple xs ih =>
    cases e <;> simp only [order?, reduceCtorEq, tuple.injEq]
    exact orderAll?_eq_iff fun x hx y => ih x hx

-- ---------------------------------------------------------------------------
-- The order
-- ---------------------------------------------------------------------------

theorem orderAll?_swap (items : ∀ x ∈ xs, ∀ y, order? y x = (order? x y).map .swap) :
    orderAll? ys xs = (orderAll? xs ys).map .swap := by
  induction xs generalizing ys with
  | nil => cases ys <;> rfl
  | cons x xs ih =>
    obtain ⟨hx, hxs⟩ := List.forall_mem_cons.1 items
    cases ys with
    | nil => rfl
    | cons y ys =>
      by_cases same : order? x y = some .eq
      · have flipped : order? y x = some .eq := by rw [hx, same]; rfl
        rw [orderAll?_cons_of_eq same, orderAll?_cons_of_eq flipped, ih hxs]
      · have flipped : order? y x ≠ some .eq :=
          fun h => same (order?_eq_iff.2 (order?_eq_iff.1 h).symm)
        rw [orderAll?_cons_of_ne same, orderAll?_cons_of_ne flipped, hx]

/-- Data compare the other way round as they should, or not at all. -/
theorem order?_swap (d e : Datum) : order? e d = (order? d e).map .swap := by
  induction d using induct generalizing e with
  | number n => cases e <;> first | rfl | exact congrArg some Std.OrientedCmp.eq_swap
  | text s => cases e <;> first | rfl | exact congrArg some Std.OrientedCmp.eq_swap
  | bytes x => cases e <;> first | rfl | exact congrArg some Std.OrientedCmp.eq_swap
  | list xs ih =>
    cases e <;> try rfl
    exact orderAll?_swap ih
  | tuple xs ih =>
    cases e <;> try rfl
    exact orderAll?_swap ih

theorem orderAll?_trans
    (items : ∀ x ∈ xs, ∀ y z, order? x y = some .lt → order? y z = some .lt → order? x z = some .lt)
    (h : orderAll? xs ys = some .lt) (h' : orderAll? ys zs = some .lt) :
    orderAll? xs zs = some .lt := by
  induction xs generalizing ys zs with
  | nil =>
    cases zs with
    | nil => cases ys <;> cases h'
    | cons => rfl
  | cons x xs ih =>
    obtain ⟨hx, hxs⟩ := List.forall_mem_cons.1 items
    cases ys with
    | nil => cases h
    | cons y ys =>
      cases zs with
      | nil => cases h'
      | cons z zs =>
        -- The first items decide unless both pairs of them are equal.
        by_cases xy : order? x y = some .eq
        · rw [orderAll?_cons_of_eq xy] at h
          cases order?_eq_iff.1 xy
          by_cases yz : order? x z = some .eq
          · rw [orderAll?_cons_of_eq yz] at h' ⊢
            exact ih hxs h h'
          · rw [orderAll?_cons_of_ne yz] at h' ⊢
            exact h'
        · rw [orderAll?_cons_of_ne xy] at h
          have xz : order? x z = some .lt := by
            by_cases yz : order? y z = some .eq
            · cases order?_eq_iff.1 yz
              exact h
            · rw [orderAll?_cons_of_ne yz] at h'
              exact hx y z h h'
          rw [orderAll?_cons_of_ne (by rw [xz]; decide), xz]

theorem order?_trans (h : order? d e = some .lt) (h' : order? e f = some .lt) :
    order? d f = some .lt := by
  induction d using induct generalizing e f with
  | number n =>
    cases e <;> try cases h
    cases f <;> try cases h'
    exact congrArg some (Std.TransCmp.lt_trans (Option.some.inj h) (Option.some.inj h'))
  | text s =>
    cases e <;> try cases h
    cases f <;> try cases h'
    exact congrArg some (Std.TransCmp.lt_trans (Option.some.inj h) (Option.some.inj h'))
  | bytes x =>
    cases e <;> try cases h
    cases f <;> try cases h'
    exact congrArg some (Std.TransCmp.lt_trans (Option.some.inj h) (Option.some.inj h'))
  | list xs ih =>
    cases e <;> try cases h
    cases f <;> try cases h'
    exact orderAll?_trans (fun x hx y z => ih x hx) h h'
  | tuple xs ih =>
    cases e <;> try cases h
    cases f <;> try cases h'
    exact orderAll?_trans (fun x hx y z => ih x hx) h h'

end Datum

end ObjectModel
