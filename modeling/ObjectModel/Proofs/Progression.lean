import ObjectModel.Range

/-!
# Progressions

The list `start, start + step, …` of all that lies strictly before `stop` in the
direction of `step`. Ranges denote such lists and slices select along them.

Main statements: `Range.lt_lengthOf_iff` says which steps of a progression the
closed form of its length counts, and `progression_eq_map` that they make up the
list.
-/

namespace ObjectModel

/-- Strictly before the end of a progression, in the direction of its step. -/
def Ahead (stop step x : Int) : Prop := 0 < step ∧ x < stop ∨ step < 0 ∧ stop < x

instance (stop step x : Int) : Decidable (Ahead stop step x) := inferInstanceAs (Decidable (_ ∨ _))

/-- `start, start + step, …` as long as that is strictly before `stop`. -/
def progression (start stop step : Int) : List Int :=
  if Ahead stop step start then start :: progression (start + step) stop step else []
termination_by (if 0 < step then stop - start else start - stop).toNat
decreasing_by
  rename_i h
  rcases h with ⟨hs, h⟩ | ⟨hs, h⟩
  · rw [if_pos hs, if_pos hs]
    omega
  · rw [if_neg (by omega), if_neg (by omega)]
    omega

namespace Range

variable {start stop step : Int}

/-- The length counts the steps that stay before the end. -/
theorem lt_lengthOf_iff {k : Nat} :
    k < lengthOf start stop step ↔ Ahead stop step (start + k * step) := by
  have steps {d n : Int} (hd : 0 < d) (hn : 0 < n) : k < ((n - 1) / d + 1).toNat ↔ k * d < n := by
    have floor : (k : Int) ≤ (n - 1) / d ↔ k * d ≤ n - 1 := Int.le_ediv_iff_mul_le hd
    omega
  unfold lengthOf Ahead
  split
  · next h =>
    rw [steps h.1 (by omega)]
    omega
  · next h =>
    have grows : 0 < step → 0 ≤ k * step := fun hs => Int.mul_nonneg (by omega) (by omega)
    split
    · next h' =>
      rw [steps (by omega) (by omega), Int.mul_neg]
      omega
    · next h' =>
      have falls : step < 0 → k * step ≤ 0 := fun hs =>
        Int.mul_nonpos_of_nonneg_of_nonpos (by omega) (by omega)
      omega

theorem lengthOf_of_ahead (h : Ahead stop step start) :
    lengthOf start stop step = lengthOf (start + step) stop step + 1 := by
  have first : 0 < lengthOf start stop step := lt_lengthOf_iff.2 (by simpa using h)
  have later (k : Nat) :
      k + 1 < lengthOf start stop step ↔ k < lengthOf (start + step) stop step := by
    rw [lt_lengthOf_iff, lt_lengthOf_iff]
    have shift : start + ((k + 1 : Nat) : Int) * step = start + step + k * step := by
      rw [Int.natCast_add, Int.add_mul]
      omega
    rw [shift]
  have below := later (lengthOf start stop step - 1)
  have above := later (lengthOf (start + step) stop step)
  omega

theorem lengthOf_eq_zero (h : ¬ Ahead stop step start) : lengthOf start stop step = 0 :=
  Nat.eq_zero_of_not_pos fun hp => h (by simpa using lt_lengthOf_iff.1 hp)

/-- A progression up to a multiple of its step has as many elements. -/
theorem lengthOf_add_mul (start : Int) {step : Int} (hs : step ≠ 0) (n : Nat) :
    lengthOf start (start + n * step) step = n := by
  have below (k : Nat) : k < lengthOf start (start + n * step) step ↔ k < n := by
    rw [lt_lengthOf_iff, Ahead]
    rcases Int.lt_or_gt_of_ne hs with hs | hs
    · have : k * step > n * step ↔ (k : Int) < n := Int.mul_lt_mul_right_of_neg hs
      omega
    · have : k * step < n * step ↔ (k : Int) < n := Int.mul_lt_mul_right hs
      omega
  have least := below n
  have most := below (lengthOf start (start + n * step) step)
  omega

/-- There are no more steps than places between the bounds. -/
theorem lengthOf_le (start stop step : Int) : lengthOf start stop step ≤ (stop - start).natAbs := by
  refine Nat.le_of_not_lt fun h => ?_
  rcases lt_lengthOf_iff.1 h with ⟨hs, hk⟩ | ⟨hs, hk⟩
  · have : (stop - start).natAbs * 1 ≤ (stop - start).natAbs * step :=
      Int.mul_le_mul_of_nonneg_left hs (Int.natCast_nonneg _)
    omega
  · have : (stop - start).natAbs * step ≤ (stop - start).natAbs * (-1) :=
      Int.mul_le_mul_of_nonneg_left (by omega) (Int.natCast_nonneg _)
    omega

end Range

variable {start stop step : Int}

theorem progression_eq_map (start stop step : Int) : progression start stop step =
    (List.range (Range.lengthOf start stop step)).map fun k : Nat => start + k * step := by
  fun_induction progression start stop step with
  | case1 start h ih =>
    have shift (k : Nat) : start + ((k + 1 : Nat) : Int) * step = start + step + k * step := by
      rw [Int.natCast_add, Int.add_mul]
      omega
    rw [ih, Range.lengthOf_of_ahead h, List.range_succ_eq_map, List.map_cons, List.map_map,
      Int.natCast_zero, Int.zero_mul, Int.add_zero]
    exact congrArg _ (List.map_congr_left fun k _ => (shift k).symm)
  | case2 start h => rw [Range.lengthOf_eq_zero h, List.range_zero, List.map_nil]

@[simp] theorem length_progression (start stop step : Int) :
    (progression start stop step).length = Range.lengthOf start stop step := by
  rw [progression_eq_map, List.length_map, List.length_range]

theorem getElem?_progression {k : Nat} (h : k < Range.lengthOf start stop step) :
    (progression start stop step)[k]? = some (start + k * step) := by
  rw [progression_eq_map, List.getElem?_map, List.getElem?_range h, Option.map_some]

theorem nth_eq_of_progression_eq {start' stop' step' : Int}
    (h : progression start stop step = progression start' stop' step') {k : Nat}
    (hk : k < Range.lengthOf start stop step) : start + k * step = start' + k * step' := by
  have hk' : k < Range.lengthOf start' stop' step' := by
    rwa [← length_progression, ← h, length_progression]
  have nth := getElem?_progression hk
  rw [h, getElem?_progression hk'] at nth
  exact (Option.some.inj nth).symm

theorem mem_progression {x : Int} : x ∈ progression start stop step ↔
    ∃ k : Nat, k < Range.lengthOf start stop step ∧ start + k * step = x := by
  rw [progression_eq_map, List.mem_map]
  simp only [List.mem_range]

theorem between_of_mem_progression {x : Int} (h : x ∈ progression start stop step) :
    0 < step ∧ start ≤ x ∧ x < stop ∨ step < 0 ∧ stop < x ∧ x ≤ start := by
  obtain ⟨k, hk, rfl⟩ := mem_progression.1 h
  rcases Range.lt_lengthOf_iff.1 hk with ⟨hs, hx⟩ | ⟨hs, hx⟩
  · have := Int.mul_nonneg (Int.natCast_nonneg k) (Int.le_of_lt hs)
    omega
  · have := Int.mul_nonpos_of_nonneg_of_nonpos (Int.natCast_nonneg k) (Int.le_of_lt hs)
    omega

/-- A progression goes strictly in the direction of its step. -/
theorem pairwise_progression (start stop step : Int) :
    (progression start stop step).Pairwise fun x y => if 0 < step then x < y else y < x := by
  rw [progression_eq_map, List.pairwise_map]
  refine List.pairwise_lt_range.imp_of_mem fun {i j} hi _ hij => ?_
  have ahead := Range.lt_lengthOf_iff.1 (List.mem_range.1 hi)
  have apart : (j : Int) * step = i * step + ((j - i : Nat) : Int) * step := by
    rw [← Int.add_mul, Int.natCast_sub (Nat.le_of_lt hij)]
    congr 1
    omega
  rcases ahead with ⟨hs, -⟩ | ⟨hs, -⟩
  · have : 0 < ((j - i : Nat) : Int) * step := Int.mul_pos (by omega) hs
    rw [if_pos hs]
    omega
  · have : ((j - i : Nat) : Int) * step < 0 := Int.mul_neg_of_pos_of_neg (by omega) hs
    rw [if_neg (by omega)]
    omega

end ObjectModel
