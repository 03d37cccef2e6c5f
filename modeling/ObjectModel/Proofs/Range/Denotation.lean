import ObjectModel.Proofs.Progression

/-!
# What a range denotes

A range stands for the progression from its start up to its stop. Its length, its
elements, the positions of values and its equality are closed forms about that
list.

Main statements: `Range.getElem?_elements`, `Range.indexOf?_eq_some` and
`Range.same_iff_elements`.
-/

namespace ObjectModel.Range

open Checked

/-- The list that a range denotes. -/
def elements (r : Range) : List Int := progression r.start.toInt r.stop.toInt r.step.toInt

variable {r s : Range}

theorem step_toInt_ne (r : Range) : r.step.toInt ≠ 0 := fun h =>
  r.step_ne (Int64.toInt_inj.1 h)

@[simp] theorem length_elements (r : Range) : r.elements.length = r.count := length_progression ..

theorem elements_eq_map (r : Range) : r.elements =
    (List.range r.count).map fun k : Nat => r.start.toInt + k * r.step.toInt :=
  progression_eq_map ..

/-- What lies between two words is one. -/
theorem fits_of_mem_elements {n : Int} (h : n ∈ r.elements) : Fits n := by
  have start := fits_toInt r.start
  have stop := fits_toInt r.stop
  have between := between_of_mem_progression h
  unfold Fits at start stop ⊢
  omega

/-- No element is cut to a word. -/
theorem toInt_nth {i : Nat} (h : i < r.count) :
    (r.nth i).toInt = r.start.toInt + i * r.step.toInt := by
  have fits : Fits (r.start.toInt + i * r.step.toInt) :=
    fits_of_mem_elements (mem_progression.2 ⟨i, h, rfl⟩)
  exact Int64.toInt_ofInt_of_le fits.1 fits.2

theorem getElem?_elements {i : Nat} (h : i < r.count) :
    r.elements[i]? = some (r.nth i).toInt := by
  rw [toInt_nth h]
  exact getElem?_progression h

theorem elements_eq_map_nth (r : Range) :
    r.elements = (List.range r.count).map fun k => (r.nth k).toInt := by
  rw [elements_eq_map]
  exact List.map_congr_left fun k hk => (toInt_nth (List.mem_range.1 hk)).symm

theorem mem_elements {n : Int} : n ∈ r.elements ↔ ∃ i < r.count, (r.nth i).toInt = n := by
  rw [elements_eq_map_nth, List.mem_map]
  simp only [List.mem_range]

/-- A value is found at the position of the element that it is. -/
theorem indexOf?_eq_some {v : Int64} {i : Nat} :
    r.indexOf? v = some i ↔ i < r.count ∧ r.nth i = v := by
  have steps : i < r.count ∧ r.nth i = v ↔
      i < r.count ∧ v.toInt - r.start.toInt = r.step.toInt * i := by
    refine and_congr_right fun hi => ?_
    rw [← Int64.toInt_inj, toInt_nth hi, Int.mul_comm]
    omega
  rw [steps, indexOf?]
  simp only []
  split
  · next h =>
    constructor
    · intro found
      cases found
    · rintro ⟨_, offset⟩
      refine absurd ?_ h
      rw [offset]
      exact Int.mul_tmod_right ..
  · next h =>
    have offset : r.step.toInt * (v.toInt - r.start.toInt).tdiv r.step.toInt =
        v.toInt - r.start.toInt :=
      Int.mul_tdiv_cancel' (Int.dvd_of_tmod_eq_zero (Decidable.not_not.1 h))
    have cancel (j : Nat) : v.toInt - r.start.toInt = r.step.toInt * j ↔
        (v.toInt - r.start.toInt).tdiv r.step.toInt = j := by
      rw [← offset, Int.mul_eq_mul_left_iff r.step_toInt_ne,
        Int.mul_tdiv_cancel_left _ r.step_toInt_ne]
    rw [cancel]
    split
    · rw [Option.some.injEq]
      omega
    · constructor
      · intro found
        cases found
      · omega

theorem indexOf?_isSome {v : Int64} : (r.indexOf? v).isSome ↔ v.toInt ∈ r.elements := by
  rw [Option.isSome_iff_exists, mem_elements]
  simp only [indexOf?_eq_some, Int64.toInt_inj]

theorem same_iff_elements : r.same s = true ↔ r.elements = s.elements := by
  rw [same_iff]
  constructor
  · rintro ⟨count, h⟩
    rw [elements_eq_map, elements_eq_map, count]
    refine List.map_congr_left fun k hk => ?_
    have hk := List.mem_range.1 hk
    rcases h with empty | ⟨start, one | step⟩
    · omega
    · rw [start, show k = 0 by omega]
      omega
    · rw [start, step]
  · intro h
    have count : r.count = s.count := by rw [← length_elements, h, length_elements]
    have agree (i : Nat) (hi : i < r.count) :
        r.start.toInt + i * r.step.toInt = s.start.toInt + i * s.step.toInt := by
      have := getElem?_elements hi
      rw [h, getElem?_elements (count ▸ hi), toInt_nth hi, toInt_nth (count ▸ hi)] at this
      exact (Option.some.inj this).symm
    refine ⟨count, ?_⟩
    by_cases empty : r.count = 0
    · exact .inl empty
    have start := agree 0 (by omega)
    refine .inr ⟨Int64.toInt_inj.1 (by omega), ?_⟩
    by_cases one : r.count = 1
    · exact .inl one
    have step := agree 1 (by omega)
    exact .inr (Int64.toInt_inj.1 (by omega))

end ObjectModel.Range
