import Mathlib.Data.List.Forall2
import ObjectModel.Proofs.World.Basic

/-!
# Equality as a relation

`Value.Same` says case by case what `Value.equalsWith` decides among the objects
of a world, where an identity tells an object. Which pairs need the heap is in
`Value.Meets`; what the heap answers about them is a parameter, and `Lawful`
names what it has to satisfy.

Main statements: `equalsWith_iff_same`, `equalsWith_symm`, `equalsWith_trans`.
-/

namespace ObjectModel

theorem forall₂_symm {α : Type} {R : α → α → Prop} {xs ys : List α} (h : List.Forall₂ R xs ys)
    (symm : ∀ x ∈ xs, ∀ y ∈ ys, R x y → R y x) : List.Forall₂ R ys xs := by
  induction h with
  | nil => exact .nil
  | @cons x y xs ys hxy h ih =>
    refine .cons (symm x (List.mem_cons_self ..) y (List.mem_cons_self ..) hxy) (ih ?_)
    exact fun x hx y hy => symm x (List.mem_cons_of_mem _ hx) y (List.mem_cons_of_mem _ hy)

theorem forall₂_trans {α : Type} {R : α → α → Prop} {xs ys zs : List α}
    (h : List.Forall₂ R xs ys) (h' : List.Forall₂ R ys zs)
    (trans : ∀ x ∈ xs, ∀ y ∈ ys, ∀ z ∈ zs, R x y → R y z → R x z) : List.Forall₂ R xs zs := by
  induction h generalizing zs with
  | nil => cases h'; exact .nil
  | @cons x y xs ys hxy h ih =>
    cases h' with
    | @cons _ z _ zs hyz h' =>
      have hx := List.mem_cons_self (a := x) (l := xs)
      have hy := List.mem_cons_self (a := y) (l := ys)
      have hz := List.mem_cons_self (a := z) (l := zs)
      refine .cons (trans x hx y hy z hz hxy hyz) (ih h' fun x hx y hy z hz => ?_)
      exact trans x (List.mem_cons_of_mem _ hx) y (List.mem_cons_of_mem _ hy) z
        (List.mem_cons_of_mem _ hz)

theorem exists_of_forall₂ {α β : Type} {R : α → β → Prop} {xs : List α} {ys : List β} {x : α}
    (related : List.Forall₂ R xs ys) (hx : x ∈ xs) : ∃ y ∈ ys, R x y := by
  induction related with
  | nil => cases hx
  | cons here _ ih =>
    obtain rfl | hx := List.mem_cons.1 hx
    · exact ⟨_, List.mem_cons_self, here⟩
    · obtain ⟨y, hy, there⟩ := ih hx
      exact ⟨y, List.mem_cons_of_mem _ hy, there⟩

namespace Value

variable {stored : Value → Value → Bool}

/-- Pairs that are compared through the heap. -/
inductive Meets : Value → Value → Prop
  | bytesBytearray : Meets (.bytes tag data) (.bytearray r)
  | bytearrayBytes : Meets (.bytearray r) (.bytes tag data)
  | bytearray : Meets (.bytearray r) (.bytearray s)
  | list : Meets (.list r) (.list s)
  | dict : Meets (.dict r) (.dict s)
  | set : Meets (.set r) (.set s)
  | view : Meets (.view tag p r) (.view tag' q s)

/-- When values are equal, by the kinds of the two. -/
inductive Same (stored : Value → Value → Bool) : Value → Value → Prop
  | refl : Same stored a a
  | number : a.asInt? = some n → b.asInt? = some n → Same stored a b
  | text : s.chars = t.chars → Same stored (.str tag s) (.str tag' t)
  | bytes : Same stored (.bytes tag data) (.bytes tag' data)
  | range : r.same s = true → Same stored (.range tag r) (.range tag' s)
  | method : receiver.is receiver' = true →
      Same stored (.method tag receiver m) (.method tag' receiver' m)
  | tuple : List.Forall₂ (fun x y => x.equalsWith stored y = true) xs ys →
      Same stored (.tuple tag xs) (.tuple tag' ys)
  | slice : x.equalsWith stored x' = true → y.equalsWith stored y' = true →
      z.equalsWith stored z' = true → Same stored (.slice tag x y z) (.slice tag' x' y' z')
  | stored : Meets a b → stored a b = true → Same stored a b

theorem is_refl (a : Value) : a.is a = true := is_iff.2 rfl

theorem is_comm (a b : Value) : a.is b = b.is a := by
  simp only [is, Bool.beq_comm]

theorem allEqualWith_iff {xs ys : List Value} :
    allEqualWith stored xs ys = true ↔
      List.Forall₂ (fun x y => x.equalsWith stored y = true) xs ys := by
  induction xs generalizing ys with
  | nil => cases ys <;> simp [allEqualWith]
  | cons x xs ih => cases ys <;> simp [allEqualWith, ih]

theorem equalsWith_of_is {a b : Value} (h : a.is b = true) (ha : ∀ tag n, a ≠ .int tag n) :
    a.equalsWith stored b = true := by
  cases a with
  | int tag n => exact absurd rfl (ha tag n)
  | _ => simp [equalsWith, h]

theorem equalsWith_refl (a : Value) : a.equalsWith stored a = true := by
  cases a with
  | int tag n => simp [equalsWith]
  | _ => exact equalsWith_of_is (is_refl _) (by simp)

theorem equalsWith_of_leaf {a b : Value} (h : leafEquals stored a b = true)
    (ha : ∀ tag n, a ≠ .int tag n) : a.equalsWith stored b = true := by
  cases a with
  | int tag n => exact absurd rfl (ha tag n)
  | tuple | slice => cases b <;> simp [leafEquals, asInt?] at h
  | _ => simp [equalsWith, h]

theorem leafEquals_of_number {a b : Value} (ha : a.asInt? = some n) (hb : b.asInt? = some n) :
    leafEquals stored a b = true := by
  cases a <;> simp only [asInt?, reduceCtorEq] at ha <;>
    cases b <;> simp only [asInt?, reduceCtorEq] at hb <;>
    simp only [Option.some.injEq] at ha hb <;> simp [leafEquals, asInt?, ha, hb]

theorem leafEquals_of_meets {a b : Value} (h : Meets a b) :
    leafEquals stored a b = stored a b := by
  cases h <;> rfl

/-- What pairs that meet are answered is all that leaves ask for. -/
theorem leafEquals_congr {stored' : Value → Value → Bool} {a b : Value}
    (h : Meets a b → stored a b = stored' a b) : leafEquals stored a b = leafEquals stored' a b := by
  by_cases hm : Meets a b
  · rw [leafEquals_of_meets hm, leafEquals_of_meets hm, h hm]
  · fun_cases leafEquals stored a b
    case case5 => exact absurd .bytesBytearray hm
    case case6 => exact absurd .bytearrayBytes hm
    case case7 => exact absurd .bytearray hm
    case case8 => exact absurd .list hm
    case case9 => exact absurd .dict hm
    case case10 => exact absurd .set hm
    case case11 => exact absurd .view hm
    all_goals simp [leafEquals, *]

theorem same_of_leaf {a b : Value} (h : leafEquals stored a b = true) : Same stored a b := by
  unfold leafEquals at h
  split at h
  · exact .text (by simpa using h)
  · cases eq_of_beq h; exact .bytes
  · exact .range h
  · obtain ⟨hm, hr⟩ := Bool.and_eq_true_iff.1 h
    cases eq_of_beq hm
    exact .method hr
  · exact .stored .bytesBytearray h
  · exact .stored .bytearrayBytes h
  · exact .stored .bytearray h
  · exact .stored .list h
  · exact .stored .dict h
  · exact .stored .set h
  · exact .stored .view h
  · split at h
    · next m n hm hn =>
      cases eq_of_beq h
      exact .number hm hn
    · cases h

theorem equalsWith_of_same {a b : Value} (h : Same stored a b) : a.equalsWith stored b = true := by
  cases h with
  | refl => exact equalsWith_refl a
  | number ha hb =>
    cases a with
    | int tag n =>
      cases b with
      | int tag' m => simp_all [equalsWith, asInt?]
      | _ => simp [equalsWith, leafEquals_of_number ha hb]
    | _ => exact equalsWith_of_leaf (leafEquals_of_number ha hb) (by simp)
  | text h => exact equalsWith_of_leaf (by simp [leafEquals, h]) (by simp)
  | bytes => exact equalsWith_of_leaf (by simp [leafEquals]) (by simp)
  | range h => exact equalsWith_of_leaf (by simpa [leafEquals] using h) (by simp)
  | method h => exact equalsWith_of_leaf (by simpa [leafEquals] using h) (by simp)
  | tuple h => simp [equalsWith, allEqualWith_iff.2 h]
  | slice hx hy hz => simp [equalsWith, hx, hy, hz]
  | stored hm hs =>
    refine equalsWith_of_leaf ((leafEquals_of_meets hm).trans hs) ?_
    rintro tag n rfl
    cases hm

/-- What the heap has to answer for equality to be an equivalence. -/
structure Lawful (w : World) (stored : Value → Value → Bool) : Prop where
  symm : ∀ {a b : Value}, w.Has a → w.Has b → Meets a b → stored a b = true → stored b a = true
  trans : ∀ {a b c : Value}, w.Has a → w.Has b → w.Has c → Meets a b → Meets b c → Meets a c →
    stored a b = true → stored b c = true → stored a c = true
  /-- two `bytes` that equal one bytearray -/
  bytes_eq : ∀ {tag tag' : Tag} {x y : List UInt8} {r : Ref .bytearray},
    stored (.bytes tag x) (.bytearray r) = true → stored (.bytearray r) (.bytes tag' y) = true →
    x = y
  /-- the tag of `bytes` makes no difference -/
  bytes_tag : ∀ {tag tag' : Tag} {x : List UInt8} {r : Ref .bytearray},
    stored (.bytes tag x) (.bytearray r) = true → stored (.bytes tag' x) (.bytearray r) = true

theorem Meets.symm {a b : Value} (h : Meets a b) : Meets b a := by
  cases h <;> constructor

theorem same_of_equalsWith {w : World} {a b : Value} (ha : w.Has a) (hb : w.Has b)
    (h : a.equalsWith stored b = true) : Same stored a b := by
  have identical (h : a.is b = true) : Same stored a b :=
    w.unique ha hb (is_iff.1 h) ▸ .refl
  have either (h : (a.is b || leafEquals stored a b) = true) : Same stored a b :=
    (Bool.or_eq_true_iff.1 h).elim identical same_of_leaf
  cases a with
  | int tag n =>
    cases b with
    | int tag' m => cases eq_of_beq (show (n == m) = true from h); exact .number rfl rfl
    | _ => exact either h
  | tuple tag xs =>
    rcases Bool.or_eq_true_iff.1 h with h | h
    · exact identical h
    · cases b with
      | tuple tag' ys => exact .tuple (allEqualWith_iff.1 h)
      | _ => cases h
  | slice tag x y z =>
    rcases Bool.or_eq_true_iff.1 h with h | h
    · exact identical h
    · cases b with
      | slice tag' x' y' z' =>
        simp only [Bool.and_eq_true] at h
        exact .slice h.1.1 h.1.2 h.2
      | _ => cases h
  | _ => exact either h

/-- Among the objects of a world, equality holds where its cases say so. -/
theorem equalsWith_iff_same {w : World} {a b : Value} (ha : w.Has a) (hb : w.Has b) :
    a.equalsWith stored b = true ↔ Same stored a b :=
  ⟨same_of_equalsWith ha hb, equalsWith_of_same⟩

section
variable {w : World} (lawful : Lawful w stored)
include lawful

theorem equalsWith_symm {a b : Value} (ha : w.Has a) (hb : w.Has b)
    (h : a.equalsWith stored b = true) : b.equalsWith stored a = true := by
  induction a using inductParts generalizing b with
  | step a ih =>
    replace ih {x y : Value} (hx : x ∈ a.parts) (hy : y ∈ b.parts)
        (h : x.equalsWith stored y = true) : y.equalsWith stored x = true :=
      ih x hx (w.parts ha hx) (w.parts hb hy) h
    refine equalsWith_of_same ?_
    cases same_of_equalsWith ha hb h with
    | refl => exact .refl
    | number hm hn => exact .number hn hm
    | text hc => exact .text hc.symm
    | bytes => exact .bytes
    | range hr => exact .range (Range.same_symm hr)
    | method hr => exact .method (by rwa [is_comm])
    | tuple hs => exact .tuple (forall₂_symm hs fun x hx y hy => ih hx hy)
    | slice hx hy hz =>
      refine .slice (ih ?_ ?_ hx) (ih ?_ ?_ hy) (ih ?_ ?_ hz) <;> simp [parts]
    | stored hm hs => exact .stored hm.symm (lawful.symm ha hb hm hs)

/-- What two pairs that are compared through the heap have in common. -/
theorem Same.trans_stored {a b c : Value} (ha : w.Has a) (hb : w.Has b) (hc : w.Has c)
    (hab : Meets a b) (hbc : Meets b c) (h : stored a b = true) (h' : stored b c = true) :
    Same stored a c := by
  have through (hac : Meets a c) : Same stored a c :=
    .stored hac (lawful.trans ha hb hc hab hbc hac h h')
  cases hab <;> cases hbc <;> first | exact through (by constructor) | skip
  · cases lawful.bytes_eq h h'
    exact .bytes

theorem equalsWith_trans {a b c : Value} (ha : w.Has a) (hb : w.Has b) (hc : w.Has c)
    (h : a.equalsWith stored b = true) (h' : b.equalsWith stored c = true) :
    a.equalsWith stored c = true := by
  induction a using inductParts generalizing b c with
  | step a ih =>
    replace ih {x y z : Value} (hx : x ∈ a.parts) (hy : y ∈ b.parts) (hz : z ∈ c.parts)
        (h : x.equalsWith stored y = true) (h' : y.equalsWith stored z = true) :
        x.equalsWith stored z = true :=
      ih x hx (w.parts ha hx) (w.parts hb hy) (w.parts hc hz) h h'
    have hab := same_of_equalsWith ha hb h
    have hbc := same_of_equalsWith hb hc h'
    refine equalsWith_of_same ?_
    cases hab with
    | refl => exact hbc
    | number hm hn =>
      cases hbc with
      | refl => exact .number hm hn
      | number hn' ho => cases hn.symm.trans hn'; exact .number hm ho
      | stored hm' => cases hm' <;> cases hn
      | _ => cases hn
    | text ht =>
      cases hbc with
      | refl => exact .text ht
      | number hn => cases hn
      | text ht' => exact .text (ht.trans ht')
      | stored hm => cases hm
    | bytes =>
      cases hbc with
      | refl => exact .bytes
      | number hn => cases hn
      | bytes => exact .bytes
      | stored hm hs => cases hm; exact .stored .bytesBytearray (lawful.bytes_tag hs)
    | range hr =>
      cases hbc with
      | refl => exact .range hr
      | number hn => cases hn
      | range hr' => exact .range (Range.same_trans hr hr')
      | stored hm => cases hm
    | method hr =>
      cases hbc with
      | refl => exact .method hr
      | number hn => cases hn
      | method hr' => exact .method (is_iff.2 ((is_iff.1 hr).trans (is_iff.1 hr')))
      | stored hm => cases hm
    | tuple hs =>
      cases hbc with
      | refl => exact .tuple hs
      | number hn => cases hn
      | tuple hs' =>
        exact .tuple (forall₂_trans hs hs' fun x hx y hy z hz => ih hx hy hz)
      | stored hm => cases hm
    | slice hx hy hz =>
      cases hbc with
      | refl => exact .slice hx hy hz
      | number hn => cases hn
      | slice hx' hy' hz' =>
        refine .slice (ih ?_ ?_ ?_ hx hx') (ih ?_ ?_ ?_ hy hy') (ih ?_ ?_ ?_ hz hz') <;>
          simp [parts]
      | stored hm => cases hm
    | stored hm hs =>
      cases hbc with
      | refl => exact .stored hm hs
      | number hn => cases hm <;> cases hn
      | bytes =>
        cases hm with
        | bytearrayBytes =>
          refine .stored .bytearrayBytes ?_
          have hs' := lawful.symm ha hb .bytearrayBytes hs
          exact lawful.symm hc ha .bytesBytearray (lawful.bytes_tag hs')
      | stored hm' hs' => exact Same.trans_stored lawful ha hb hc hm hm' hs hs'
      | _ => cases hm

end

end Value

end ObjectModel
