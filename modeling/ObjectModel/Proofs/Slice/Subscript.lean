import Mathlib.Data.List.Forall2
import ObjectModel.Proofs.Run
import ObjectModel.Proofs.Slice.Selection
import ObjectModel.Subscript

/-!
# Subscripts by slices

A sequence gives the elements at the positions that a slice selects, as a
sequence of its own kind. An ASCII text is read from its bytes, which are its
characters.

Main statement: `Slice.subscript_selects`.
-/

namespace ObjectModel

/-- An element of a sequence. -/
inductive Element where
  | value (v : Value)
  | char (c : Char)
  | byte (b : UInt8)

def Heap.elements? (h : Heap) : Value → Option (List Element)
  | .list r => some ((h.list r).map .value)
  | .tuple _ items => some (items.map .value)
  | .str _ t => some (t.chars.map .char)
  | .bytes _ data => some (data.map .byte)
  | .bytearray r => some ((h.bytearray r).map .byte)
  | _ => none

-- ---------------------------------------------------------------------------
-- Selected elements
-- ---------------------------------------------------------------------------

namespace Slice

variable {α β : Type}

/-- What is selected are the elements at the positions, each of which has one. -/
theorem map_select (s : Slice) (xs : List α) :
    (s.select xs).map some = (s.resolve xs.length).positions.map (xs[·]?) := by
  have inside (p : Nat) (hp : p ∈ (s.resolve xs.length).positions) : ∃ x, xs[p]? = some x :=
    ⟨_, List.getElem?_eq_getElem (lt_of_mem_positions hp)⟩
  simp only [select, Selection.pick, List.getElem?_toArray]
  generalize (s.resolve xs.length).positions = ps at inside
  induction ps with
  | nil => rfl
  | cons p ps ih =>
    obtain ⟨x, hx⟩ := inside p (List.mem_cons_self ..)
    rw [List.filterMap_cons_some hx, List.map_cons, List.map_cons, hx,
      ih fun q hq => inside q (List.mem_cons_of_mem _ hq)]

/-- Selecting is by position alone. -/
theorem select_map (f : α → β) (s : Slice) (xs : List α) :
    s.select (xs.map f) = (s.select xs).map f := by
  refine (List.map_inj_right fun _ _ => Option.some.inj).1 ?_
  calc (s.select (xs.map f)).map some
      = (s.resolve xs.length).positions.map ((xs.map f)[·]?) := by rw [map_select, List.length_map]
    _ = ((s.resolve xs.length).positions.map (xs[·]?)).map (Option.map f) := by
        simp only [List.getElem?_map, List.map_map, Function.comp_def]
    _ = ((s.select xs).map f).map some := by rw [← map_select, List.map_map, List.map_map]; rfl

theorem rel_getElem? {R : α → β → Prop} {xs : List α} {ys : List β} (h : List.Forall₂ R xs ys)
    (i : Nat) : Option.Rel R xs[i]? ys[i]? := by
  induction h generalizing i with
  | nil => exact .none
  | cons first _ ih =>
    cases i with
    | zero => exact .some first
    | succ i => exact ih i

/-- What corresponds item by item does so after selecting. -/
theorem forall₂_select {R : α → β → Prop} {xs : List α} {ys : List β} (h : List.Forall₂ R xs ys)
    (s : Slice) : List.Forall₂ R (s.select xs) (s.select ys) := by
  simp only [select, Selection.pick, List.getElem?_toArray]
  rw [h.length_eq]
  refine List.rel_filterMap ?_ (List.forall₂_eq_eq_eq ▸ rfl)
  intro p q hpq
  cases hpq
  exact rel_getElem? h p

end Slice

namespace Text

theorem length_le_size (cs : List Char) : cs.length ≤ Utf8.size cs := by
  induction cs with
  | nil => exact Nat.le_refl 0
  | cons c cs ih =>
    have := c.utf8Size_pos
    simp only [Utf8.size, List.length_cons, List.foldr_cons] at ih ⊢
    omega

theorem utf8Size_of_size_eq {cs : List Char} (h : Utf8.size cs = cs.length) :
    ∀ c ∈ cs, c.utf8Size = 1 := by
  induction cs with
  | nil => exact List.forall_mem_nil _
  | cons c cs ih =>
    have := c.utf8Size_pos
    have rest := length_le_size cs
    simp only [Utf8.size, List.length_cons, List.foldr_cons] at h rest ih
    exact List.forall_mem_cons.2 ⟨by omega, ih (by omega)⟩

theorem ofNat_utf8EncodeChar {c : Char} (h : c.utf8Size = 1) :
    (String.utf8EncodeChar c).map (fun b => Char.ofNat b.toNat) = [c] := by
  have small : c.val.toNat ≤ 127 := Char.utf8Size_eq_one_iff.1 h
  rw [String.utf8EncodeChar_eq_singleton h, List.map_singleton, UInt32.toNat_toUInt8,
    Nat.mod_eq_of_lt (by omega)]
  exact congrArg ([·]) c.ofNat_toNat

/-- A text with as many bytes as characters is its bytes. -/
theorem chars_of_isAscii {t : Text} (h : t.isAscii = true) :
    t.bytes.map (fun b => Char.ofNat b.toNat) = t.chars := by
  have count : t.count = t.byteLength := eq_of_beq h
  have single := utf8Size_of_size_eq (count.symm.trans t.count_eq)
  rw [bytes, Utf8.encode, List.map_flatMap]
  exact (List.flatMap_congr fun c hc => ofNat_utf8EncodeChar (single c hc)).trans
    (List.flatMap_singleton' _)

end Text

theorem Subscript.selectText_eq (s : Slice) (t : Text) : selectText s t = s.select t.chars := by
  unfold selectText
  split
  · next h => rw [← Slice.select_map, Text.chars_of_isAscii h]
  · rfl

-- ---------------------------------------------------------------------------
-- Subscripts
-- ---------------------------------------------------------------------------

/-- The action makes a value of some kind with some elements. -/
def Action.Makes (a : Action Value) (s : Session) (k : Kind) (xs : List Element) : Prop :=
  ∃ u s', a.runOn s = (.ok u, s') ∧ u.kind = k ∧ s'.heap.elements? u = some xs

namespace Action

variable {s : Session}

theorem makes_newList (items : List Value) : (newList items).Makes s .list (items.map .value) := by
  obtain ⟨s', run, holds, -⟩ := runOn_newList items s
  refine ⟨_, s', run, rfl, ?_⟩
  rw [Heap.elements?, holds]

theorem makes_newTuple (items : List Value) :
    (newTuple items).Makes s .tuple (items.map .value) := by
  obtain ⟨tag, fresh, run⟩ := runOn_newTuple items s
  exact ⟨_, _, run, rfl, rfl⟩

theorem makes_newChars (cs : List Char) : (newChars cs).Makes s .str (cs.map .char) := by
  obtain ⟨tag, fresh, run⟩ := runOn_newChars cs s
  exact ⟨_, _, run, rfl, rfl⟩

theorem makes_newBytes (data : List UInt8) : (newBytes data).Makes s .bytes (data.map .byte) :=
  ⟨_, _, rfl, rfl, rfl⟩

theorem makes_newBytearray (data : List UInt8) :
    (newBytearray data).Makes s .bytearray (data.map .byte) :=
  ⟨_, _, rfl, rfl, congrArg (fun xs : Array UInt8 => some (xs.toList.map Element.byte))
    (Store.get_push_size ..)⟩

theorem Makes.of_runOn {a b : Action Value} {k : Kind} {xs : List Element}
    (h : a.runOn s = b.runOn s) (hb : b.Makes s k xs) : a.Makes s k xs := by
  obtain ⟨u, s', run, made⟩ := hb
  exact ⟨u, s', h.trans run, made⟩

theorem runOn_ofValue (what : String) (tag : Tag) (start stop step : Value) (s : Session) :
    (liftM (Subscript.ofValue what (.slice tag start stop step)) : Action Subscript).runOn s =
      (.ok (.slice start stop step), s) := rfl

theorem runOn_getItem_list {start stop step : Value} {sl : Slice} (tag : Tag)
    (hs : Subscript.toSlice start stop step = .ok sl) (r : Ref .list) :
    (getItem (.list r) (.slice tag start stop step)).runOn s =
      (newList (sl.select (s.heap.list r))).runOn s := by
  rw [getItem, runOn_bind_of_ok (runOn_ofValue ..), runOn_bind_of_ok (runOn_lift_of_ok hs s),
    runOn_bind_of_ok (runOn_readList ..)]

theorem makes_getItem {v start stop step : Value} {xs : List Element} {sl : Slice} (tag : Tag)
    (hv : s.heap.elements? v = some xs) (hs : Subscript.toSlice start stop step = .ok sl) :
    (getItem v (.slice tag start stop step)).Makes s v.kind (sl.select xs) := by
  have sliced := runOn_lift_of_ok hs s
  cases v with
  | list r =>
    cases hv
    rw [Slice.select_map]
    exact .of_runOn (runOn_getItem_list tag hs r) (makes_newList _)
  | tuple _ items =>
    cases hv
    rw [Slice.select_map]
    refine .of_runOn ?_ (makes_newTuple _)
    rw [getItem, runOn_bind_of_ok (runOn_ofValue ..), runOn_bind_of_ok sliced]
  | str _ t =>
    cases hv
    rw [Slice.select_map, ← Subscript.selectText_eq]
    refine .of_runOn ?_ (makes_newChars _)
    rw [getItem, runOn_bind_of_ok (runOn_ofValue ..), runOn_bind_of_ok sliced]
  | bytes _ data =>
    cases hv
    rw [Slice.select_map]
    refine .of_runOn ?_ (makes_newBytes _)
    rw [getItem, runOn_bind_of_ok (runOn_ofValue ..), runOn_bind_of_ok sliced]
  | bytearray r =>
    cases hv
    rw [Slice.select_map]
    refine .of_runOn ?_ (makes_newBytearray _)
    rw [getItem, runOn_bind_of_ok (runOn_ofValue ..), runOn_bind_of_ok sliced,
      runOn_bind_of_ok (runOn_readBytearray ..)]
  | _ => cases hv

theorem runOn_getItem_error {v start stop step : Value} {tag : Tag} {c : Cause}
    (hv : (s.heap.elements? v).isSome ∨ v.kind = .range)
    (hs : Subscript.toSlice start stop step = .error c) :
    (getItem v (.slice tag start stop step)).runOn s = (.error (.cause c), s) := by
  have sliced := runOn_lift_of_error hs s
  cases v with
  | list | tuple | str | bytes | bytearray | range =>
    rw [getItem, runOn_bind_of_ok (runOn_ofValue ..), runOn_bind_of_error sliced]
  | _ => rcases hv with h | h <;> cases h

end Action

-- ---------------------------------------------------------------------------
-- Bounds
-- ---------------------------------------------------------------------------

namespace Subscript

/-- The bound that a value is: none, or the integer that it stands for. -/
inductive IsBound : Value → Option Int64 → Prop
  | none : IsBound .none none
  | int (tag : Tag) (n : Int64) : IsBound (.int tag n) (some n)
  | bool (b : Bool) : IsBound (.bool b) (some (if b then 1 else 0))

variable {start stop step : Value} {a b c : Option Int64}

theorem bound_of_isBound {v : Value} (h : IsBound v a) : bound v = .ok a := by
  cases h <;> rfl

theorem bound_of_not_isBound {v : Value} (h : ∀ a, ¬ IsBound v a) :
    bound v = .error .sliceBound := by
  cases v with
  | none => exact absurd .none (h _)
  | int tag n => exact absurd (.int tag n) (h _)
  | bool b => exact absurd (.bool b) (h _)
  | _ => rfl

/-- A missing step is one. -/
theorem toSlice_of_isBound (ha : IsBound start a) (hb : IsBound stop b) (hc : IsBound step c)
    (h : c.getD 1 ≠ 0) : toSlice start stop step = .ok ⟨a, b, c.getD 1, h⟩ := by
  rw [toSlice, bound_of_isBound ha, bound_of_isBound hb, bound_of_isBound hc]
  exact dif_neg h

/-- The step is examined before the other bounds. -/
theorem toSlice_zero (start stop : Value) (hc : IsBound step (some 0)) :
    toSlice start stop step = .error .zeroSliceStep := by
  rw [toSlice, bound_of_isBound hc]
  rfl

theorem toSlice_of_not_isBound (h : (∀ c, ¬ IsBound step c) ∨ ¬ IsBound step (some 0) ∧
    ((∀ a, ¬ IsBound start a) ∨ ∀ b, ¬ IsBound stop b)) :
    toSlice start stop step = .error .sliceBound := by
  rw [toSlice]
  rcases h with h | ⟨nonzero, h⟩
  · rw [bound_of_not_isBound h]
    rfl
  by_cases hc : ∃ c, IsBound step c
  · obtain ⟨c, hc⟩ := hc
    have stride : c.getD 1 ≠ 0 := by
      cases c with
      | none => decide
      | some n => exact fun h : n = 0 => nonzero (h ▸ hc)
    rw [bound_of_isBound hc]
    refine (dif_neg stride).trans ?_
    by_cases ha : ∃ a, IsBound start a
    · obtain ⟨a, ha⟩ := ha
      rw [bound_of_isBound ha, bound_of_not_isBound (h.resolve_left fun h => h a ha)]
      rfl
    · rw [bound_of_not_isBound fun a h => ha ⟨a, h⟩]
      rfl
  · rw [bound_of_not_isBound fun c h => hc ⟨c, h⟩]
    rfl

end Subscript

/-- A slice selects the positions of a progression between clamped bounds, and
subscripting a sequence by three values that bound a slice gives a sequence of
the same kind with the elements at these positions. Other values are refused. -/
theorem Slice.subscript_selects :
    (∀ (s : Slice) (length : Nat), s.Selects length (s.resolve length)) ∧
    (∀ (s : Session) (v start stop step : Value) (tag : Tag) (xs : List Element)
      (a b c : Option Int64) (h : c.getD 1 ≠ 0), s.heap.elements? v = some xs →
      Subscript.IsBound start a → Subscript.IsBound stop b → Subscript.IsBound step c →
      ∃ u s' ys, (Action.getItem v (.slice tag start stop step)).runOn s = (.ok u, s') ∧
        u.kind = v.kind ∧ s'.heap.elements? u = some ys ∧ ys.map some =
          ((⟨a, b, c.getD 1, h⟩ : Slice).resolve xs.length).positions.map (xs[·]?)) ∧
    ∀ (s : Session) (v start stop step : Value) (tag : Tag), (s.heap.elements? v).isSome →
      (Subscript.IsBound step (some 0) →
        (Action.getItem v (.slice tag start stop step)).runOn s =
          (.error (.cause .zeroSliceStep), s) ∧ Cause.zeroSliceStep.kind = .value) ∧
      ((∀ c, ¬ Subscript.IsBound step c) ∨ ¬ Subscript.IsBound step (some 0) ∧
        ((∀ a, ¬ Subscript.IsBound start a) ∨ ∀ b, ¬ Subscript.IsBound stop b) →
        (Action.getItem v (.slice tag start stop step)).runOn s =
          (.error (.cause .sliceBound), s) ∧ Cause.sliceBound.kind = .type) := by
  refine ⟨selects, ?_, ?_⟩
  · intro s v start stop step tag xs a b c h hv ha hb hc
    obtain ⟨u, s', run, kind, made⟩ :=
      Action.makes_getItem tag hv (Subscript.toSlice_of_isBound ha hb hc h)
    exact ⟨u, s', _, run, kind, made, map_select ..⟩
  · intro s v start stop step tag hv
    constructor
    · intro zero
      exact ⟨Action.runOn_getItem_error (.inl hv) (Subscript.toSlice_zero _ _ zero), rfl⟩
    · intro bad
      exact ⟨Action.runOn_getItem_error (.inl hv) (Subscript.toSlice_of_not_isBound bad), rfl⟩

/-- `(None, True)[::-1]`, `(None, True)[::False]` and `(None, True)[False:None:(True,)]`. -/
theorem Slice.subscript_selects_pair :
    let s := Session.start [] false
    let pair := Value.tuple 0 [.none, .bool true]
    (∃ u s', (Action.getItem pair (.slice 1 .none .none (.int 2 (-1)))).runOn s = (.ok u, s') ∧
      u.kind = .tuple ∧ s'.heap.elements? u = some [.value (.bool true), .value .none]) ∧
    (Action.getItem pair (.slice 1 .none .none (.bool false))).runOn s =
      (.error (.cause .zeroSliceStep), s) ∧
    (Action.getItem pair (.slice 1 (.bool false) .none (.tuple 2 [.bool true]))).runOn s =
      (.error (.cause .sliceBound), s) := by
  obtain ⟨-, selected, refused⟩ := subscript_selects
  refine ⟨?_, ?_, ?_⟩
  · obtain ⟨u, s', ys, run, kind, made, picked⟩ := selected (Session.start [] false)
      (.tuple 0 [.none, .bool true]) .none .none (.int 2 (-1)) 1 _ none none (some (-1))
      (by decide) rfl .none .none (.int 2 (-1))
    have backward : ys = [.value (.bool true), .value .none] :=
      (List.map_inj_right fun _ _ => Option.some.inj).1 picked
    exact ⟨u, s', run, kind, made.trans (congrArg some backward)⟩
  · exact ((refused _ _ _ _ _ _ rfl).1 (.bool false)).1
  · exact ((refused _ _ _ _ _ _ rfl).2 (.inl fun _ h => by cases h)).1

end ObjectModel
