import ObjectModel.Heap.Order
import ObjectModel.Proofs.Equality.Total
import ObjectModel.Proofs.Order.Datum

/-!
# Plain values stand for data

A value that is built from numbers, texts and byte sequences by nesting lists and
tuples stands for one datum. Such values are equal when they stand for the same
datum, and are compared as the data are.

Main statements: `Plain.exists_denotes`, `Denotes.equals_iff` and
`Denotes.answers`.
-/

namespace ObjectModel

theorem Text.compareBytes_eq (xs ys : List UInt8) : compareBytes xs ys = compare xs ys := by
  induction xs generalizing ys with
  | nil => cases ys <;> rfl
  | cons x xs ih =>
    cases ys with
    | nil => rfl
    | cons y ys =>
      rw [compareBytes, List.compare_cons_cons]
      split
      · next same =>
        have self : compare x x = .eq := Std.ReflCmp.compare_self
        rw [← same, self, ih]
        rfl
      · next apart =>
        cases order : compare x y with
        | eq => exact absurd (Std.LawfulEqCmp.eq_of_compare order) apart
        | _ => rfl

namespace Comparison

/-- What the comparison answers about data: what the order of the two says, and
that it is not supported where they have none. -/
def Answers (op : Comparison) (order? : Option Ordering) (x : Except Fault Bool) : Prop :=
  match order? with
  | some o => x = .ok (op.holds o)
  | none => ∃ left right, x = .error (.cause (.comparison op.symbol left right))

theorem answers_some {op : Comparison} {o o' : Ordering} (same : o = o') :
    op.Answers (some o') (.ok (op.holds o)) :=
  same ▸ rfl

theorem Answers.lt_iff {order? : Option Ordering} {x : Except Fault Bool}
    (answers : Comparison.lt.Answers order? x) : x = .ok true ↔ order? = some .lt := by
  cases order? with
  | none =>
    obtain ⟨_, _, rfl⟩ := answers
    simp
  | some o =>
    cases answers
    cases o <;> simp [holds]

end Comparison

namespace Heap

/-- Values that are built from numbers, texts and byte sequences by nesting lists
and tuples. -/
inductive Plain (h : Heap) : Value → Prop
  | int : Plain h (.int tag n)
  | bool : Plain h (.bool b)
  | str : Plain h (.str tag t)
  | bytes : Plain h (.bytes tag data)
  | bytearray : Plain h (.bytearray r)
  | list : (∀ x ∈ h.list r, Plain h x) → Plain h (.list r)
  | tuple : (∀ x ∈ items, Plain h x) → Plain h (.tuple tag items)

/-- The datum that a value stands for. -/
inductive Denotes (h : Heap) : Value → Datum → Prop
  | number {v : Value} {n : Int64} : v.asInt? = some n → Denotes h v (.number n.toInt)
  | text {tag : Tag} {t : Text} : Denotes h (.str tag t) (.text t.chars)
  | bytes {v : Value} {data : List UInt8} : h.bytesOf? v = some data → Denotes h v (.bytes data)
  | list {r : Ref .list} {ds : List Datum} : List.Forall₂ (Denotes h) (h.list r) ds →
    Denotes h (.list r) (.list ds)
  | tuple {tag : Tag} {items : List Value} {ds : List Datum} : List.Forall₂ (Denotes h) items ds →
    Denotes h (.tuple tag items) (.tuple ds)

variable {h : Heap} {a b v : Value} {d e : Datum} {n : Nat}

theorem exists_forall₂ {α β : Type} {R : α → β → Prop} {xs : List α} (hx : ∀ x ∈ xs, ∃ y, R x y) :
    ∃ ys, List.Forall₂ R xs ys := by
  induction xs with
  | nil => exact ⟨[], .nil⟩
  | cons x xs ih =>
    obtain ⟨⟨y, hy⟩, hxs⟩ := List.forall_mem_cons.1 hx
    obtain ⟨ys, hys⟩ := ih hxs
    exact ⟨y :: ys, .cons hy hys⟩

theorem Plain.exists_denotes (plain : h.Plain v) : ∃ d, h.Denotes v d := by
  induction plain with
  | int | bool => exact ⟨_, .number rfl⟩
  | str => exact ⟨_, .text⟩
  | bytes | bytearray => exact ⟨_, .bytes rfl⟩
  | list _ ih =>
    obtain ⟨ds, items⟩ := exists_forall₂ ih
    exact ⟨_, .list items⟩
  | tuple _ ih =>
    obtain ⟨ds, items⟩ := exists_forall₂ ih
    exact ⟨_, .tuple items⟩

/-- A value is in no cycle if what it reads is in none. -/
theorem acyclic_of_reads (reads : ∀ x, h.Reads a x → h.Acyclic x) : h.Acyclic a := by
  intro x hx cycle
  rcases hx.cases_head with rfl | ⟨y, hy, hx⟩
  · obtain ⟨y, hy, back⟩ := Relation.TransGen.head'_iff.1 cycle
    exact reads y hy y .refl (.tail' back hy)
  · exact reads y hy x hx cycle

-- ---------------------------------------------------------------------------
-- What a value stands for
-- ---------------------------------------------------------------------------

theorem Denotes.of_number {n : Int64} (hd : h.Denotes v d) (hv : v.asInt? = some n) :
    d = .number n.toInt := by
  cases hd with
  | number hn =>
    cases hn.symm.trans hv
    rfl
  | bytes hb => cases v <;> cases hb <;> cases hv
  | _ => cases hv

theorem Denotes.of_str {tag : Tag} {t : Text} (hd : h.Denotes (.str tag t) d) :
    d = .text t.chars := by
  cases hd with
  | number hn => cases hn
  | text => rfl
  | bytes hb => cases hb

theorem Denotes.of_bytes {data : List UInt8} (hd : h.Denotes v d) (hv : h.bytesOf? v = some data) :
    d = .bytes data := by
  cases hd with
  | number hn => cases v <;> cases hn <;> cases hv
  | bytes hb =>
    cases hb.symm.trans hv
    rfl
  | _ => cases hv

theorem Denotes.of_list {r : Ref .list} (hd : h.Denotes (.list r) d) :
    ∃ ds, d = .list ds ∧ List.Forall₂ h.Denotes (h.list r) ds := by
  cases hd with
  | number hn => cases hn
  | bytes hb => cases hb
  | list items => exact ⟨_, rfl, items⟩

theorem Denotes.of_tuple {tag : Tag} {items : List Value} (hd : h.Denotes (.tuple tag items) d) :
    ∃ ds, d = .tuple ds ∧ List.Forall₂ h.Denotes items ds := by
  cases hd with
  | number hn => cases hn
  | bytes hb => cases hb
  | tuple items => exact ⟨_, rfl, items⟩

theorem forall₂_unique {xs : List Value} {ds es : List Datum}
    (hd : List.Forall₂ h.Denotes xs ds) (he : List.Forall₂ h.Denotes xs es)
    (items : ∀ d ∈ ds, ∀ x e, h.Denotes x d → h.Denotes x e → d = e) : ds = es := by
  induction hd generalizing es with
  | nil => cases he; rfl
  | cons hd _ ih =>
    cases he with
    | cons he hes =>
      obtain ⟨first, rest⟩ := List.forall_mem_cons.1 items
      rw [first _ _ hd he, ih hes rest]

theorem Denotes.unique (hd : h.Denotes v d) (he : h.Denotes v e) : d = e := by
  induction d using Datum.induct generalizing v e with
  | number =>
    cases hd with
    | number hn => exact (he.of_number hn).symm
  | text =>
    cases hd with
    | text => exact he.of_str.symm
  | bytes =>
    cases hd with
    | bytes hb => exact (he.of_bytes hb).symm
  | list ds ih =>
    cases hd with
    | list items =>
      obtain ⟨es, rfl, items'⟩ := he.of_list
      exact congrArg _ (forall₂_unique items items' fun d hd _ _ => ih d hd)
  | tuple ds ih =>
    cases hd with
    | tuple items =>
      obtain ⟨es, rfl, items'⟩ := he.of_tuple
      exact congrArg _ (forall₂_unique items items' fun d hd _ _ => ih d hd)

/-- Relating items is relating what they stand for. -/
theorem forall₂_iff_eq {R : Value → Value → Prop} {xs ys : List Value} {ds es : List Datum}
    (hx : List.Forall₂ h.Denotes xs ds) (hy : List.Forall₂ h.Denotes ys es)
    (items : ∀ x ∈ xs, ∀ y ∈ ys, ∀ d ∈ ds, ∀ e, h.Denotes x d → h.Denotes y e → (R x y ↔ d = e)) :
    List.Forall₂ R xs ys ↔ ds = es := by
  induction hx generalizing ys es with
  | nil => cases hy <;> simp
  | @cons x d xs ds hxd hx ih =>
    cases hy with
    | nil => simp
    | @cons y e ys es hye hy =>
      have here := items x (List.mem_cons_self ..) y (List.mem_cons_self ..) d
        (List.mem_cons_self ..) e hxd hye
      have later := ih hy fun x hx y hy d hd => items x (List.mem_cons_of_mem _ hx) y
        (List.mem_cons_of_mem _ hy) d (List.mem_cons_of_mem _ hd)
      rw [List.forall₂_cons, List.cons.injEq, here, later]

theorem forall₂_imp_of_mem {α β : Type} {R S : α → β → Prop} {xs : List α} {ys : List β}
    (related : List.Forall₂ R xs ys) (imp : ∀ x ∈ xs, ∀ y ∈ ys, R x y → S x y) :
    List.Forall₂ S xs ys := by
  rw [List.forall₂_iff_zip] at related ⊢
  refine ⟨related.1, fun {x y} mem => ?_⟩
  obtain ⟨hx, hy⟩ := List.of_mem_zip mem
  exact imp x hx y hy (related.2 mem)

/-- What a value reads stands for an item of its datum. -/
theorem Denotes.of_reads {x : Value} (hd : h.Denotes v d) (reads : h.Reads v x) :
    ∃ e ∈ d.items, h.Denotes x e := by
  cases reads with
  | list hx =>
    obtain ⟨ds, rfl, items⟩ := hd.of_list
    exact exists_of_forall₂ items hx
  | tuple hx =>
    obtain ⟨ds, rfl, items⟩ := hd.of_tuple
    exact exists_of_forall₂ items hx
  | slice | dict | view => cases hd with | number hv | bytes hv => cases hv

theorem Denotes.acyclic (hd : h.Denotes v d) : h.Acyclic v := by
  induction d using Datum.inductItems generalizing v with
  | step d ih =>
    refine acyclic_of_reads fun x reads => ?_
    obtain ⟨e, he, hx⟩ := hd.of_reads reads
    exact ih e he hx

theorem Plain.acyclic (plain : h.Plain v) : h.Acyclic v :=
  let ⟨_, hd⟩ := plain.exists_denotes
  hd.acyclic

-- ---------------------------------------------------------------------------
-- Equality
-- ---------------------------------------------------------------------------

/-- Byte sequences are equal by their bytes, whether they change or not. -/
theorem same_of_bytes {equal : Value → Value → Bool} {data : List UInt8}
    (ha : h.bytesOf? a = some data) (hb : h.bytesOf? b = some data) :
    Value.Same (h.contentsEqual equal) a b := by
  cases a with
  | bytes =>
    cases b with
    | bytes =>
      cases ha
      cases hb
      exact .bytes
    | bytearray => exact .stored .bytesBytearray (by simp [contentsEqual, ha, hb])
    | _ => cases hb
  | bytearray =>
    cases b with
    | bytes => exact .stored .bytearrayBytes (by simp [contentsEqual, ha, hb])
    | bytearray => exact .stored .bytearray (by simp [contentsEqual, ha, hb])
    | _ => cases hb
  | _ => cases ha

/-- Values are equal when they stand for the same datum, if that holds of two
tuples and of two lists. -/
theorem Denotes.same_iff {equal : Value → Value → Bool} (hd : h.Denotes a d) (he : h.Denotes b e)
    (tuples : ∀ tag tag' xs ys, a = .tuple tag xs → b = .tuple tag' ys →
      (List.Forall₂ (fun x y => x.equalsWith (h.contentsEqual equal) y = true) xs ys ↔ d = e))
    (lists : ∀ r s, a = .list r → b = .list s → (h.contentsEqual equal a b = true ↔ d = e)) :
    Value.Same (h.contentsEqual equal) a b ↔ d = e := by
  constructor
  · intro same
    cases same with
    | refl => exact hd.unique he
    | number ha hb => rw [hd.of_number ha, he.of_number hb]
    | text same => rw [hd.of_str, he.of_str, same]
    | bytes => rw [hd.of_bytes rfl, he.of_bytes rfl]
    | tuple items => exact (tuples _ _ _ _ rfl rfl).1 items
    | range | method | slice => cases hd with | number hx | bytes hx => cases hx
    | stored meets same =>
      cases meets with
      | list => exact (lists _ _ rfl rfl).1 same
      | bytesBytearray | bytearrayBytes | bytearray =>
        rw [hd.of_bytes rfl, he.of_bytes rfl, eq_of_beq same]
      | dict | set | view => cases hd with | number hx | bytes hx => cases hx
  · intro same
    cases hd with
    | number ha =>
      cases he with
      | number hb =>
        cases Int64.toInt_inj.1 (Datum.number.inj same)
        exact .number ha hb
      | _ => cases same
    | text =>
      cases he with
      | text => exact .text (Datum.text.inj same)
      | _ => cases same
    | bytes ha =>
      cases he with
      | bytes hb =>
        cases same
        exact same_of_bytes ha hb
      | _ => cases same
    | list =>
      cases he with
      | list => exact .stored .list ((lists _ _ rfl rfl).2 same)
      | _ => cases same
    | tuple =>
      cases he with
      | tuple => exact .tuple ((tuples _ _ _ _ rfl rfl).2 same)
      | _ => cases same

section
variable {w : World} (models : w.Models h)
include models

/-- With levels enough, values are equal when they stand for the same datum. -/
theorem Denotes.equalsAt_iff (ha : w.Has a) (hb : w.Has b) (shallow : h.Shallow n a)
    (hd : h.Denotes a d) (he : h.Denotes b e) : h.equalsAt n a b = true ↔ d = e := by
  -- Tuples take no level, so the induction is on the datum.
  induction d using Datum.inductItems generalizing n a b e with
  | step d ih =>
    cases n with
    | zero => exact absurd shallow.card_lt (Nat.not_lt_zero _)
    | succ n =>
      rw [equalsAt, Value.equalsWith_iff_same ha hb]
      refine hd.same_iff he ?_ ?_
      · rintro tag tag' xs ys rfl rfl
        obtain ⟨ds, rfl, hxs⟩ := hd.of_tuple
        obtain ⟨es, rfl, hys⟩ := he.of_tuple
        rw [Datum.tuple.injEq]
        exact forall₂_iff_eq hxs hys fun x hx y hy d hd _ =>
          ih d hd (w.parts ha hx) (w.parts hb hy) (shallow.reads (.tuple hx))
      · rintro r s rfl rfl
        obtain ⟨ds, rfl, hxs⟩ := hd.of_list
        obtain ⟨es, rfl, hys⟩ := he.of_list
        rw [Datum.list.injEq, contentsEqual, listsEqual_iff]
        exact forall₂_iff_eq hxs hys fun x hx y hy d hd _ =>
          ih d hd (models.list r x hx) (models.list s y hy) (shallow.held hx)

theorem Denotes.equals_iff (ha : w.Has a) (hb : w.Has b) (acyclic : h.Acyclic a)
    (hd : h.Denotes a d) (he : h.Denotes b e) : h.equals a b = true ↔ d = e :=
  hd.equalsAt_iff models ha hb (shallow_of_acyclic acyclic) he

end

-- ---------------------------------------------------------------------------
-- Comparisons
-- ---------------------------------------------------------------------------

/-- Pairs that are compared item by item. -/
inductive ByItems : Value → Value → Prop
  | list : ByItems (.list r) (.list s)
  | tuple : ByItems (.tuple tag xs) (.tuple tag' ys)

section
variable {op : Comparison}

theorem compareWith_of_not_byItems {equal : Value → Value → Bool} (apart : ¬ ByItems a b) :
    Value.compareWith equal (h.compareStored op (n + 1)) op a b = h.compareLeaf op a b := by
  have stored : h.compareStored op (n + 1) a b = h.compareLeaf op a b := by
    unfold compareStored
    split
    · contradiction
    · exact absurd .list apart
    · rfl
  unfold Value.compareWith
  split
  · split
    · exact absurd .tuple apart
    · exact stored
  · exact stored

theorem compareLeaf_of_number {m : Int64} (ha : a.asInt? = some m) : h.compareLeaf op a b =
    match b.asInt? with
    | some n => .ok (op.holds (Ord.compare m.toInt n.toInt))
    | none => .error (.cause (.comparison op.symbol a.kind b.kind)) := by
  cases a <;> cases ha <;> (simp only [compareLeaf]; cases b.asInt? <;> rfl)

theorem compareLeaf_of_bytes {x : List UInt8} (ha : h.bytesOf? a = some x) :
    h.compareLeaf op a b =
      match h.bytesOf? b with
      | some y => .ok (op.holds (Ord.compare x y))
      | none => .error (.cause (.comparison op.symbol a.kind b.kind)) := by
  cases a <;> cases ha <;>
    (simp only [compareLeaf, Text.compareBytes_eq]; cases h.bytesOf? b <;> rfl)

/-- Values that are not compared item by item are compared as the data are. -/
theorem Denotes.answers_compareLeaf (hd : h.Denotes a d) (he : h.Denotes b e)
    (apart : ¬ ByItems a b) : op.Answers (d.order? e) (h.compareLeaf op a b) := by
  cases hd with
  | number ha =>
    rw [compareLeaf_of_number ha]
    cases he with
    | number hb => rw [hb]; rfl
    | bytes hb => cases b <;> cases hb <;> exact ⟨_, _, rfl⟩
    | text | list | tuple => exact ⟨_, _, rfl⟩
  | text =>
    cases he with
    | text => exact Comparison.answers_some (Text.compareBytes_eq _ _)
    | number hb | bytes hb => cases b <;> cases hb <;> exact ⟨_, _, rfl⟩
    | list | tuple => exact ⟨_, _, rfl⟩
  | bytes ha =>
    rw [compareLeaf_of_bytes ha]
    cases he with
    | number hb => cases b <;> cases hb <;> exact ⟨_, _, rfl⟩
    | bytes hb => rw [hb]; rfl
    | text | list | tuple => exact ⟨_, _, rfl⟩
  | list =>
    cases he with
    | list => exact absurd .list apart
    | _ => exact ⟨_, _, rfl⟩
  | tuple =>
    cases he with
    | tuple => exact absurd .tuple apart
    | _ => exact ⟨_, _, rfl⟩

/-- Sequences are compared as what their items stand for, if the items are. -/
theorem answers_compareAllWith {equal : Value → Value → Bool}
    {leaf : Value → Value → Except Fault Bool} {xs ys : List Value} {ds es : List Datum}
    (hx : List.Forall₂ h.Denotes xs ds) (hy : List.Forall₂ h.Denotes ys es)
    (items : ∀ x ∈ xs, ∀ y ∈ ys, ∀ d ∈ ds, ∀ e, h.Denotes x d → h.Denotes y e →
      (equal x y = true ↔ d = e) ∧ op.Answers (d.order? e) (x.compareWith equal leaf op y)) :
    op.Answers (Datum.orderAll? ds es) (Value.compareAllWith equal leaf op xs ys) := by
  induction hx generalizing ys es with
  | nil =>
    cases hy with
    | nil => rfl
    | cons => exact Comparison.answers_some (Nat.compare_eq_lt.2 (Nat.succ_pos _))
  | @cons x d xs ds hxd hx ih =>
    cases hy with
    | nil => exact Comparison.answers_some (Nat.compare_eq_gt.2 (Nat.succ_pos _))
    | @cons y e ys es hye hy =>
      obtain ⟨same, here⟩ := items x (List.mem_cons_self ..) y (List.mem_cons_self ..) d
        (List.mem_cons_self ..) e hxd hye
      have later := ih hy fun x hx y hy d hd => items x (List.mem_cons_of_mem _ hx) y
        (List.mem_cons_of_mem _ hy) d (List.mem_cons_of_mem _ hd)
      rw [Value.compareAllWith]
      by_cases equal : d = e
      · rw [if_pos (same.2 equal), Datum.orderAll?_cons_of_eq (Datum.order?_eq_iff.2 equal)]
        exact later
      · rw [if_neg (mt same.1 equal), Datum.orderAll?_cons_of_ne (mt Datum.order?_eq_iff.1 equal)]
        exact here

variable {w : World} (models : w.Models h)
include models

/-- With levels enough, comparing values is comparing what they stand for. -/
theorem Denotes.answers_compareWith (ha : w.Has a) (hb : w.Has b) (shallow : h.Shallow n a)
    (hd : h.Denotes a d) (he : h.Denotes b e) :
    op.Answers (d.order? e) (a.compareWith h.equals (h.compareStored op n) op b) := by
  -- Items are told apart with all levels and compared with those that are left.
  induction d using Datum.inductItems generalizing n a b e with
  | step d ih =>
    cases n with
    | zero => exact absurd shallow.card_lt (Nat.not_lt_zero _)
    | succ n =>
      by_cases byItems : ByItems a b
      · cases byItems with
        | @list r s =>
          obtain ⟨ds, rfl, hxs⟩ := hd.of_list
          obtain ⟨es, rfl, hys⟩ := he.of_list
          refine answers_compareAllWith hxs hys fun x hx y hy d hd e hxd hye => ?_
          have below := shallow.held hx
          have hasX := models.list r x hx
          have hasY := models.list s y hy
          exact ⟨hxd.equals_iff models hasX hasY below.acyclic hye,
            ih d hd hasX hasY below hxd hye⟩
        | tuple =>
          obtain ⟨ds, rfl, hxs⟩ := hd.of_tuple
          obtain ⟨es, rfl, hys⟩ := he.of_tuple
          refine answers_compareAllWith hxs hys fun x hx y hy d hd e hxd hye => ?_
          have below := shallow.reads (.tuple hx)
          exact ⟨hxd.equals_iff models (w.parts ha hx) (w.parts hb hy) below.acyclic hye,
            ih d hd (w.parts ha hx) (w.parts hb hy) below hxd hye⟩
      · rw [compareWith_of_not_byItems byItems]
        exact hd.answers_compareLeaf he byItems

/-- Comparing values without a cycle is comparing what they stand for. -/
theorem Denotes.answers (ha : w.Has a) (hb : w.Has b) (acyclic : h.Acyclic a)
    (hd : h.Denotes a d) (he : h.Denotes b e) (op : Comparison) :
    op.Answers (d.order? e) (h.compare op a b) :=
  hd.answers_compareWith models ha hb (shallow_of_acyclic acyclic) he

end

end Heap

end ObjectModel
