import Mathlib.Order.Basic
import ObjectModel.Proofs.Range.Subscript

/-!
# Slices of ranges that overflow

The slice of a range stops one of its steps after its last element. Where that
place is not a word the slice overflows, even when a range that stops earlier has
the selected elements.

Main statements: `Range.exists_elements_iff` and `Range.slice_overflows`.
-/

namespace ObjectModel.Range

open ObjectModel.Action Checked

variable {start step : Int} {n : Nat}

/-- A progression has the same elements up to the integer after its last one and
up to a whole step after it. -/
theorem progression_stop_early (start : Int) (hs : step ≠ 0) (n : Nat) :
    progression start (start + (n - 1) * step + step.sign) step =
      progression start (start + n * step) step := by
  have length : lengthOf start (start + (n - 1) * step + step.sign) step = n := by
    refine eq_of_forall_lt_iff fun k => ?_
    have before : k < n ↔ (k : Int) ≤ n - 1 := by omega
    rw [lt_lengthOf_iff, Ahead, before]
    rcases Int.lt_or_gt_of_ne hs with hs | hs
    · have : (n - 1) * step ≤ k * step ↔ (k : Int) ≤ n - 1 := Int.mul_le_mul_right_of_neg hs
      rw [Int.sign_eq_neg_one_of_neg hs]
      omega
    · have : k * step ≤ (n - 1) * step ↔ (k : Int) ≤ n - 1 := Int.mul_le_mul_right hs
      rw [Int.sign_eq_one_of_pos hs]
      omega
  rw [progression_eq_map, progression_eq_map, length, lengthOf_add_mul _ hs]

theorem progression_one (start : Int) (hs : step ≠ 0) :
    progression start (start + (1 : Nat) * step) step = [start] := by
  rw [progression_eq_map, lengthOf_add_mul _ hs]
  simp

/-- A range may stop right after its last element. -/
theorem exists_elements_of_fits (hs : step ≠ 0) (n : Nat) (first : Fits start)
    (moves : Fits step) (after : Fits (start + (n - 1) * step + step.sign)) :
    ∃ t : Range, t.elements = progression start (start + n * step) step := by
  obtain ⟨t, starts, stops, steps⟩ := exists_of_fits first after moves hs
  exact ⟨t, by rw [elements, starts, stops, steps, progression_stop_early start hs n]⟩

/-- Every single word is the element of some range: one that goes up, or one that
goes down from the greatest word. -/
theorem exists_elements_one (first : Fits start) : ∃ t : Range, t.elements = [start] := by
  by_cases up : Fits (start + 1)
  · rw [← progression_one start (show (1 : Int) ≠ 0 by decide)]
    exact exists_elements_of_fits (by decide) 1 first (by decide) (by simpa using up)
  · have down : Fits (start - 1) := by
      unfold Fits at first up ⊢
      omega
    rw [← progression_one start (show (-1 : Int) ≠ 0 by decide)]
    exact exists_elements_of_fits (by decide) 1 first (by decide)
      (by simpa [Int.sub_eq_add_neg] using down)

/-- A progression of two elements or more is that of a range exactly when its step
and the integer after its last element are words. -/
theorem exists_elements_iff (hs : step ≠ 0) (first : 0 < n → Fits start) :
    (∃ t : Range, t.elements = progression start (start + n * step) step) ↔
      n ≤ 1 ∨ Fits step ∧ Fits (start + (n - 1) * step + step.sign) := by
  constructor
  · rintro ⟨t, h⟩
    refine (Nat.lt_or_ge 1 n).symm.imp id fun many => ?_
    have count : t.count = n := by
      rw [← length_elements, h, length_progression, lengthOf_add_mul _ hs]
    have nth (k : Nat) (hk : k < n) :
        t.start.toInt + k * t.step.toInt = start + k * step :=
      nth_eq_of_progression_eq h (Nat.lt_of_lt_of_eq hk count.symm)
    have starts := nth 0 (by omega)
    have steps : t.step.toInt = step := by
      have := nth 1 many
      omega
    have last : ((n - 1 : Nat) : Int) = n - 1 := by omega
    have ahead := lt_lengthOf_iff.1 (show n - 1 < t.count by omega)
    rw [nth (n - 1) (by omega), steps, last] at ahead
    have element := fits_toInt (t.nth (n - 1))
    rw [toInt_nth (by omega), nth (n - 1) (by omega), last] at element
    have stop := fits_toInt t.stop
    refine ⟨steps ▸ fits_toInt t.step, ?_⟩
    -- What follows the last element lies between it and the stop.
    unfold Fits at element stop ⊢
    rcases ahead with ⟨hs, ahead⟩ | ⟨hs, ahead⟩
    · rw [Int.sign_eq_one_of_pos hs]
      omega
    · rw [Int.sign_eq_neg_one_of_neg hs]
      omega
  · intro enough
    obtain rfl | some := Nat.eq_zero_or_pos n
    · refine ⟨⟨0, 0, 1, by decide⟩, ?_⟩
      rw [elements, progression_eq_map, progression_eq_map, lengthOf_add_mul _ hs]
      rfl
    · rcases enough with few | ⟨moves, after⟩
      · obtain rfl : n = 1 := Nat.le_antisymm few some
        rw [progression_one start hs]
        exact exists_elements_one (first some)
      · exact exists_elements_of_fits hs n (first some) moves after

variable {r : Range} {sl : Slice}

theorem select_elements (r : Range) (sl : Slice) : sl.select r.elements =
    progression (r.sliceStart sl) (r.sliceStop sl) (r.sliceStep sl) := by
  refine (List.map_inj_right fun _ _ => Option.some.inj).1 ?_
  rw [map_progression_slice, Slice.map_select, length_elements]

/-- The first selected element is an element of the range. -/
theorem fits_sliceStart (h : 0 < (sl.resolve r.count).count) : Fits (r.sliceStart sl) := by
  obtain ⟨low, high⟩ := Slice.inside_of_lt h
  refine fits_of_lt ?_ ?_
  · simpa using low
  · simpa using high

/-- With enough elements, or words for the others, the slice overflows when the
place after the last element of that step is not a word. -/
theorem slice?_eq_none_iff (denoted : ∃ t : Range, t.elements = sl.select r.elements) :
    r.slice? sl = none ↔ ¬ Fits (r.sliceStop sl) ∨
      (sl.resolve r.count).count ≤ 1 ∧ ¬ Fits (r.sliceStep sl) := by
  rw [select_elements, sliceStop, exists_elements_iff (r.sliceStep_ne sl) fits_sliceStart]
    at denoted
  rw [← Option.not_isSome_iff_eq_none, slice?_isSome]
  have first : Fits (r.sliceStop sl) → Fits (r.sliceStart sl) := by
    intro stop
    rcases Nat.eq_zero_or_pos (sl.resolve r.count).count with none | some
    · rwa [sliceStop, none, Int.natCast_zero, Int.zero_mul, Int.add_zero] at stop
    · exact fits_sliceStart some
  rcases denoted with few | ⟨moves, -⟩
  · tauto
  · tauto

/-- All places, as in `r[:]`. -/
def whole : Slice := ⟨none, none, 1, by decide⟩

theorem resolve_whole (length : Nat) : whole.resolve length = ⟨0, length, 1, length⟩ := by
  have count : lengthOf 0 length 1 = length := by
    simpa using lengthOf_add_mul 0 (show (1 : Int) ≠ 0 by decide) length
  rw [Slice.resolve_eq]
  simp [whole, Slice.first, Slice.past, count]

theorem toSlice_whole : Subscript.toSlice .none .none .none = .ok whole := rfl

theorem sliceStart_whole (r : Range) : r.sliceStart whole = r.start.toInt := by
  rw [sliceStart, resolve_whole]
  simp

theorem sliceStep_whole (r : Range) : r.sliceStep whole = r.step.toInt := by
  rw [sliceStep, resolve_whole]
  exact Int.mul_one _

theorem sliceStop_whole (r : Range) :
    r.sliceStop whole = r.start.toInt + r.count * r.step.toInt := by
  rw [sliceStop, sliceStart_whole, sliceStep_whole, resolve_whole]

theorem slice?_whole_isSome (r : Range) :
    (r.slice? whole).isSome ↔ Fits (r.start.toInt + r.count * r.step.toInt) := by
  rw [slice?_isSome, sliceStart_whole, sliceStop_whole, sliceStep_whole]
  exact ⟨fun fits => fits.2.1, fun stop => ⟨fits_toInt _, stop, fits_toInt _⟩⟩

theorem select_whole (r : Range) : whole.select r.elements = r.elements := by
  rw [select_elements, sliceStart_whole, sliceStop_whole, sliceStep_whole, progression_eq_map,
    lengthOf_add_mul _ r.step_toInt_ne, elements_eq_map]

theorem equals_of_elements {t : Range} (h : Heap) (tag tag' : Tag)
    (same : t.elements = r.elements) : h.equals (.range tag t) (.range tag' r) = true := by
  simp only [Heap.equals, Heap.depth, Heap.equalsAt, Value.equalsWith, Value.leafEquals,
    same_iff_elements.2 same, Bool.or_true]

section Subscript

variable {x y z : Value}

theorem runOn_getItem_of_slice? {t : Range} (hs : Subscript.toSlice x y z = .ok sl)
    (h : r.slice? sl = some t) (tag tag' : Tag) (s : Session) :
    ∃ s', (getItem (.range tag r) (.slice tag' x y z)).runOn s =
      (.ok (.range s.heap.fresh t), s') := by
  rw [runOn_getItem_slice tag tag' hs, h]
  exact ⟨_, rfl⟩

theorem runOn_getItem_overflow_iff (hs : Subscript.toSlice x y z = .ok sl) (tag tag' : Tag)
    (s : Session) : (getItem (.range tag r) (.slice tag' x y z)).runOn s =
      (.error (.cause .rangeBoundTooLarge), s) ↔ r.slice? sl = none := by
  cases h : r.slice? sl with
  | none =>
    rw [runOn_getItem_slice tag tag' hs, h]
    exact iff_of_true rfl rfl
  | some t =>
    obtain ⟨s', run⟩ := runOn_getItem_of_slice? hs h tag tag' s
    rw [run]
    exact iff_of_false (fun h => nomatch h) (fun h => nomatch h)

/-- A slice of a range is a range with the selected elements, or an overflow. Where
some range has these elements the slice overflows exactly when the place one of its
steps after the last of them is not a word, or when there are too few of them for
the step to matter and it is not a word. So `r[:]` overflows exactly when the place
one step after the last element of `r` is not a word, and equals `r` otherwise. -/
theorem slice_overflows (r : Range) {a b c : Option Int64}
    (hx : Subscript.IsBound x a) (hy : Subscript.IsBound y b) (hz : Subscript.IsBound z c)
    (h : c.getD 1 ≠ 0) :
    let sl : Slice := ⟨a, b, c.getD 1, h⟩
    let sel := sl.resolve r.count
    let first := r.start.toInt + sel.start * r.step.toInt
    let stride := r.step.toInt * sel.step
    let last := first + (sel.count - 1) * stride
    let past := first + sel.count * stride
    let denoted := ∃ t : Range, t.elements = sl.select r.elements
    (denoted ↔ sel.count ≤ 1 ∨ Fits stride ∧ Fits (last + stride.sign)) ∧
    (∀ (s : Session) (tag tag' : Tag),
      let sliced := (getItem (.range tag r) (.slice tag' x y z)).runOn s
      let overflow := (Except.error (Fault.cause .rangeBoundTooLarge), s)
      ((∃ t s', sliced = (.ok (.range s.heap.fresh t), s') ∧
          t.elements = sl.select r.elements) ∨ sliced = overflow) ∧
        (denoted → (sliced = overflow ↔ ¬ Fits past ∨ sel.count ≤ 1 ∧ ¬ Fits stride))) ∧
    ∀ (s : Session) (tag tag' : Tag),
      let whole := (getItem (.range tag r) (.slice tag' .none .none .none)).runOn s
      let stop := r.start.toInt + r.count * r.step.toInt
      (Fits stop → ∃ t s', whole = (.ok (.range s.heap.fresh t), s') ∧
          t.elements = r.elements ∧
          s'.heap.equals (.range s.heap.fresh t) (.range tag r) = true) ∧
        (¬ Fits stop → whole = (.error (.cause .rangeBoundTooLarge), s)) := by
  intro sl sel first stride last past denoted
  have hs := Subscript.toSlice_of_isBound hx hy hz h
  refine ⟨?_, fun s tag tag' => ⟨?_, fun denotes => ?_⟩, fun s tag tag' => ⟨?_, ?_⟩⟩
  · show (∃ t : Range, t.elements = sl.select r.elements) ↔ _
    rw [select_elements, sliceStop]
    exact exists_elements_iff (r.sliceStep_ne sl) fits_sliceStart
  · cases sliced : r.slice? sl with
    | none => exact .inr ((runOn_getItem_overflow_iff hs tag tag' s).2 sliced)
    | some t =>
      obtain ⟨s', run⟩ := runOn_getItem_of_slice? hs sliced tag tag' s
      exact .inl ⟨t, s', run, elements_eq_select sliced⟩
  · exact (runOn_getItem_overflow_iff hs tag tag' s).trans (slice?_eq_none_iff denotes)
  · intro fits
    obtain ⟨t, sliced⟩ := Option.isSome_iff_exists.1 ((slice?_whole_isSome r).2 fits)
    obtain ⟨s', run⟩ := runOn_getItem_of_slice? toSlice_whole sliced tag tag' s
    have same : t.elements = r.elements := (elements_eq_select sliced).trans (select_whole r)
    exact ⟨t, s', run, same, equals_of_elements _ _ _ same⟩
  · intro fits
    refine (runOn_getItem_overflow_iff toSlice_whole tag tag' s).2 ?_
    rwa [← Option.not_isSome_iff_eq_none, slice?_whole_isSome]

/-- `range(0, 10)[True::3]` is a range, and `range(0, 2 ** 63 - 1, 2)[True:]`
overflows. -/
theorem slice_overflows_of_even :
    let s := Session.start [] false
    let ten : Range := ⟨0, 10, 1, by decide⟩
    let even : Range := ⟨0, 0x7FFFFFFFFFFFFFFF, 2, by decide⟩
    let thirds : Slice := ⟨some 1, none, 3, by decide⟩
    let tail : Slice := ⟨some 1, none, 1, by decide⟩
    let overflow := (Except.error (Fault.cause .rangeBoundTooLarge), s)
    ((∃ t : Range, t.elements = thirds.select ten.elements) ∧
      (getItem (.range 0 ten) (.slice 1 (.bool true) .none (.int 2 3))).runOn s ≠ overflow) ∧
    (∃ t : Range, t.elements = tail.select even.elements) ∧
      (getItem (.range 0 even) (.slice 1 (.bool true) .none .none)).runOn s = overflow := by
  intro s ten even thirds tail overflow
  obtain ⟨denotes, slices, -⟩ := slice_overflows ten (.bool true) .none (.int 2 3) (by decide)
  obtain ⟨denotes', slices', -⟩ := slice_overflows even (.bool true) .none .none (by decide)
  have some : ∃ t : Range, t.elements = thirds.select ten.elements := denotes.2 (by decide)
  have some' : ∃ t : Range, t.elements = tail.select even.elements := denotes'.2 (by decide)
  refine ⟨⟨some, ?_⟩, some', ?_⟩
  · exact ((slices s 0 1).2 some).not.2 (by decide)
  · exact ((slices' s 0 1).2 some').2 (by decide)

/-- `range(0, 2 ** 63 - 1, 2)[:]` overflows, although that range has the selected
elements. -/
theorem whole_of_even_overflows :
    let s := Session.start [] false
    let even : Range := ⟨0, 0x7FFFFFFFFFFFFFFF, 2, by decide⟩
    even.elements = whole.select even.elements ∧
      (getItem (.range 0 even) (.slice 1 .none .none .none)).runOn s =
        (.error (.cause .rangeBoundTooLarge), s) := by
  intro s even
  refine ⟨(select_whole even).symm, (runOn_getItem_overflow_iff toSlice_whole 0 1 s).2 ?_⟩
  rw [← Option.not_isSome_iff_eq_none, slice?_whole_isSome]
  decide

end Subscript

end ObjectModel.Range
