import ObjectModel.Proofs.Quiet
import ObjectModel.Proofs.Range.Operations
import ObjectModel.Proofs.Range.Slice
import ObjectModel.Proofs.Slice.Subscript

/-!
# Subscripts of ranges by slices

A range gives a range for a slice, or overflows. The list of the result is the
slice of the list of the range.

Main statement: `Range.subscript_slice`.
-/

namespace ObjectModel

open ObjectModel.Action Checked

/-- The lists that there are stay as they are. -/
def Heap.KeepsLists (h h' : Heap) : Prop :=
  h.lists.size ≤ h'.lists.size ∧ ∀ q : Ref .list, q.index < h.lists.size → h'.list q = h.list q

theorem Heap.KeepsLists.trans {h h' h'' : Heap} (first : h.KeepsLists h')
    (second : h'.KeepsLists h'') : h.KeepsLists h'' :=
  ⟨Nat.le_trans first.1 second.1, fun q hq =>
    (second.2 q (Nat.lt_of_lt_of_le hq first.1)).trans (first.2 q hq)⟩

theorem Heap.keepsLists_of_eq {h h' : Heap} (eq : h'.lists = h.lists) : h.KeepsLists h' :=
  ⟨Nat.le_of_eq (congrArg Store.size eq.symm), fun _ _ => by rw [Heap.list, Heap.list, eq]⟩

namespace Range

variable {r t : Range} {s : Session} {vs ws : List Value} {ns : List Int}

theorem listsEqual_of_isInt (h : Heap) (n : Nat) (hv : List.Forall₂ Value.IsInt vs ns)
    (hw : List.Forall₂ Value.IsInt ws ns) : Heap.listsEqual (h.equalsAt n) vs ws = true := by
  have equal {u v : Value} {k : Int} (hu : u.IsInt k) (hv : v.IsInt k) :
      h.equalsAt n u v = true := by
    obtain ⟨tag, m, rfl, hm⟩ := hu
    obtain ⟨tag', m', rfl, hm'⟩ := hv
    cases Int64.toInt_inj.1 (hm.trans hm'.symm)
    cases n <;> simp [Heap.equalsAt, Value.equalsWith]
  induction hv generalizing ws with
  | nil => cases hw; rfl
  | cons first _ ih =>
    cases hw with
    | cons second rest => exact Bool.and_eq_true_iff.2 ⟨equal first second, ih rest⟩

/-- Lists of the same integers are equal. -/
theorem equals_lists {h : Heap} {p q : Ref .list} (hp : List.Forall₂ Value.IsInt (h.list p) ns)
    (hq : List.Forall₂ Value.IsInt (h.list q) ns) : h.equals (.list p) (.list q) = true := by
  have items := listsEqual_of_isInt h (h.lists.size + h.dicts.size) hp hq
  simp only [Heap.equals, Heap.depth, Heap.equalsAt, Value.equalsWith, Value.leafEquals,
    Heap.contentsEqual, items, Bool.or_true]

theorem runOn_list (tag : Tag) (r : Range) (s : Session) :
    ∃ q s', (call (.type .list) (.single (.range tag r))).runOn s = (.ok (.list q), s') ∧
      List.Forall₂ Value.IsInt (s'.heap.list q) r.elements ∧ q.index < s'.heap.lists.size ∧
      s.heap.KeepsLists s'.heap := by
  have single : (liftM ((Arguments.single (.range tag r)).plain "list" 0 1) :
      Action Unit).runOn s = (.ok (), s) := rfl
  obtain ⟨vs, s', collected, ints⟩ := runOn_rangeItems tag r s
  have quiet : s'.heap.lists = s.heap.lists := by
    have := Quiet.items (.range tag r) s
    rw [collected] at this
    exact congrArg Prod.fst this
  obtain ⟨s'', made, holds, grown, keeps⟩ := runOn_newList vs s'
  refine ⟨_, s'', ?_, holds ▸ ints, grown ▸ Nat.lt_succ_self _,
    (Heap.keepsLists_of_eq quiet).trans ⟨grown ▸ Nat.le_succ _, keeps⟩⟩
  show (Construct.list (.single (.range tag r))).runOn s = _
  rw [Construct.list, runOn_bind_of_ok single]
  exact (runOn_bind_of_ok collected _).trans made

/-- Whether `list(r[s])` equals `list(r)[s]`. -/
def listsSliceAlike (r s : Value) : Action Bool := do
  let sliced ← call (.type .list) (.single (← getItem r s))
  let listed ← call (.type .list) (.single r)
  equals sliced (← getItem listed s)

variable {start stop step : Value} {sl : Slice}

theorem runOn_getItem_slice (tag tag' : Tag)
    (hs : Subscript.toSlice start stop step = .ok sl) (r : Range) (s : Session) :
    (getItem (.range tag r) (.slice tag' start stop step)).runOn s =
      match r.slice? sl with
      | some t => (newRange t).runOn s
      | none => (.error (.cause .rangeBoundTooLarge), s) := by
  rw [getItem, runOn_bind_of_ok (runOn_ofValue ..), runOn_bind_of_ok (runOn_lift_of_ok hs s)]
  cases r.slice? sl <;> rfl

theorem elements_eq_select (h : r.slice? sl = some t) : t.elements = sl.select r.elements := by
  refine (List.map_inj_right fun _ _ => Option.some.inj).1 ?_
  rw [elements_slice h, Slice.map_select, length_elements]

theorem runOn_listsSliceAlike (tag tag' : Tag) (hs : Subscript.toSlice start stop step = .ok sl)
    (h : r.slice? sl = some t) (s : Session) :
    ∃ s', (listsSliceAlike (.range tag r) (.slice tag' start stop step)).runOn s =
      (.ok true, s') := by
  obtain ⟨s₁, sliced⟩ : ∃ s₁, (getItem (.range tag r) (.slice tag' start stop step)).runOn s =
      (.ok (.range s.heap.fresh t), s₁) := by
    rw [runOn_getItem_slice tag tag' hs, h]
    exact ⟨_, rfl⟩
  obtain ⟨p, s₂, first, ints, bound, -⟩ := runOn_list s.heap.fresh t s₁
  obtain ⟨q, s₃, second, ints', bound', keeps⟩ := runOn_list tag r s₂
  obtain ⟨s₄, third, selected, -, keeps'⟩ := runOn_newList (sl.select (s₃.heap.list q)) s₃
  rw [← runOn_getItem_list tag' hs] at third
  refine ⟨s₄, ?_⟩
  rw [listsSliceAlike, runOn_bind_of_ok sliced, runOn_bind_of_ok first, runOn_bind_of_ok second,
    runOn_bind_of_ok third]
  have kept : s₄.heap.list p = s₂.heap.list p :=
    (keeps' p (Nat.lt_of_lt_of_le bound keeps.1)).trans (keeps.2 p bound)
  have equal : s₄.heap.equals (.list p) (.list ⟨s₃.heap.lists.size⟩) = true := by
    have listed : List.Forall₂ Value.IsInt (s₄.heap.list p) t.elements := kept ▸ ints
    refine equals_lists listed ?_
    rw [selected, elements_eq_select h]
    exact Slice.forall₂_select ints' sl
  exact congrArg (fun b => (Except.ok b, s₄)) equal

/-- The element at a place of a slice is the one at the place that it selects. -/
theorem nth_slice (h : r.slice? sl = some t) {k : Nat} (hk : k < (sl.resolve r.count).count) :
    ∃ i : Nat, (i : Int) = (sl.resolve r.count).start + k * (sl.resolve r.count).step ∧
      i < r.count ∧ t.nth k = r.nth i := by
  obtain ⟨low, high⟩ := Slice.inside_of_lt hk
  have inside : ((sl.resolve r.count).start + k * (sl.resolve r.count).step).toNat < r.count := by
    omega
  refine ⟨_, Int.toNat_of_nonneg low, inside, ?_⟩
  have selected := congrArg (·[k]?) (elements_slice h)
  simp only [List.getElem?_map, Slice.Selection.positions, List.getElem?_range hk,
    Option.map_some, getElem?_elements (count_slice h ▸ hk), getElem?_elements inside] at selected
  exact Int64.toInt_inj.1 (Option.some.inj (Option.some.inj selected))

/-- A slice of a range is a range exactly when its three numbers are words, and
an overflow otherwise. It has the selected elements, and its list is the slice of
the list of the range. No intermediate result leaves 128 bits. -/
theorem subscript_slice (r : Range) {x y z : Value} {a b c : Option Int64}
    (hx : Subscript.IsBound x a) (hy : Subscript.IsBound y b) (hz : Subscript.IsBound z c)
    (h : c.getD 1 ≠ 0) :
    let sl : Slice := ⟨a, b, c.getD 1, h⟩
    let sel := sl.resolve r.count
    let first := r.start.toInt + sel.start * r.step.toInt
    let stride := r.step.toInt * sel.step
    let past := first + sel.count * stride
    (∀ (s : Session) (tag tag' : Tag),
      (Fits first ∧ Fits past ∧ Fits stride → ∃ t s',
        (getItem (.range tag r) (.slice tag' x y z)).runOn s =
          (.ok (.range s.heap.fresh t), s') ∧
        t.start.toInt = first ∧ t.stop.toInt = past ∧ t.step.toInt = stride ∧
        t.count = sel.count ∧
        (∀ k < sel.count, ∃ i : Nat, (i : Int) = sel.start + k * sel.step ∧ i < r.count ∧
          t.nth k = r.nth i) ∧
        ∃ s', (listsSliceAlike (.range tag r) (.slice tag' x y z)).runOn s = (.ok true, s')) ∧
      (¬ (Fits first ∧ Fits past ∧ Fits stride) →
        (getItem (.range tag r) (.slice tag' x y z)).runOn s =
          (.error (.cause .rangeBoundTooLarge), s))) ∧
    Cause.rangeBoundTooLarge.kind = .overflow ∧
    r.sliceWide? sl = some (r.slice? sl) ∧
    ∀ t : Range, lengthWide? t.start.toInt t.stop.toInt t.step.toInt = some t.count := by
  intro sl sel first stride past
  have hs := Subscript.toSlice_of_isBound hx hy hz h
  refine ⟨?_, rfl, sliceWide?_eq r sl, lengthWide?_eq_count⟩
  intro s tag tag'
  constructor
  · intro fits
    obtain ⟨t, ht⟩ := Option.isSome_iff_exists.1 (slice?_isSome.2 fits)
    obtain ⟨starts, stops, steps⟩ := slice?_eq_some.1 ht
    obtain ⟨s', run⟩ : ∃ s', (getItem (.range tag r) (.slice tag' x y z)).runOn s =
        (.ok (.range s.heap.fresh t), s') := by
      rw [runOn_getItem_slice tag tag' hs, ht]
      exact ⟨_, rfl⟩
    refine ⟨t, s', run, starts, stops, steps, count_slice ht, ?_,
      runOn_listsSliceAlike tag tag' hs ht s⟩
    intro k hk
    exact nth_slice ht hk
  · intro fits
    have none : r.slice? sl = none := by
      rw [← Option.not_isSome_iff_eq_none, slice?_isSome]
      exact fits
    rw [runOn_getItem_slice tag tag' hs, none]

/-- `range(0, 10)[True::3]` and `range(0, 10, 2 ** 63 - 1)[::2]`. -/
theorem subscript_slice_of_ten :
    let s := Session.start [] false
    let ten : Range := ⟨0, 10, 1, by decide⟩
    let sparse : Range := ⟨0, 10, 0x7FFFFFFFFFFFFFFF, by decide⟩
    (∃ t s', (getItem (.range 0 ten) (.slice 1 (.bool true) .none (.int 2 3))).runOn s =
      (.ok (.range 1 t), s') ∧ t.start.toInt = 1 ∧ t.stop.toInt = 10 ∧ t.step.toInt = 3 ∧
      t.count = 3) ∧
    (∃ s', (listsSliceAlike (.range 0 ten) (.slice 1 (.bool true) .none (.int 2 3))).runOn s =
      (.ok true, s')) ∧
    (getItem (.range 0 sparse) (.slice 1 .none .none (.int 2 2))).runOn s =
      (.error (.cause .rangeBoundTooLarge), s) := by
  intro s ten sparse
  obtain ⟨runs, -⟩ := subscript_slice ten (.bool true) .none (.int 2 3) (by decide)
  obtain ⟨t, s', run, start, stop, step, count, -, alike⟩ := (runs s 0 1).1 (by decide)
  obtain ⟨refused, -⟩ := subscript_slice sparse .none .none (.int 2 2) (by decide)
  refine ⟨⟨t, s', run, ?_, ?_, step, ?_⟩, alike, (refused s 0 1).2 (by decide)⟩
  · exact start.trans (by decide)
  · exact stop.trans (by decide)
  · exact count.trans (by decide)

end Range

end ObjectModel
