import ObjectModel.Proofs.Arithmetic

/-!
# Exact shifts

Shifting left multiplies by a power of two and is refused if no word holds the
product. A word that was cut is a multiple of the power as well, so shifting it back
gives the operand only if nothing was lost. Shifting right divides by the power and
rounds down; beyond 63 places the quotient no longer changes.

Main statement: `shifts_exact`.
-/

namespace ObjectModel.Checked

-- ---------------------------------------------------------------------------
-- Machine shifts
-- ---------------------------------------------------------------------------

section
variable {value count : Int64}

theorem toInt_nonneg (positive : ¬ count < 0) : 0 ≤ count.toInt :=
  Int64.le_iff_toInt_le.1 (Int64.not_lt.1 positive)

/-- The machine takes a count modulo the width. -/
theorem toNat_smod (positive : ¬ count < 0) (small : count.toInt.toNat < 64) :
    (count.toBitVec.smod 64).toNat = count.toInt.toNat := by
  have low := toInt_nonneg positive
  have kept : (count.toBitVec.smod 64).toInt = count.toInt := by
    rw [BitVec.toInt_smod, Int64.toInt_toBitVec]
    exact Int.fmod_eq_of_lt low (show count.toInt < 64 by omega)
  rw [BitVec.toInt_eq_toNat_cond] at kept
  split at kept <;> omega

/-- A product with a power of two, cut to a word. -/
theorem toInt_shiftLeft (positive : ¬ count < 0) (small : count.toInt.toNat < 64) :
    (value <<< count).toInt = (value.toInt * 2 ^ count.toInt.toNat).bmod (2 ^ 64) := by
  rw [← Int64.toInt_toBitVec, Int64.toBitVec_shiftLeft, BitVec.shiftLeft_eq',
    toNat_smod positive small, BitVec.toInt_shiftLeft, Nat.shiftLeft_eq, Nat.cast_mul,
    ← Int.bmod_mul_bmod, ← BitVec.toInt_eq_toNat_bmod, Int64.toInt_toBitVec]
  push_cast
  rfl

theorem toInt_shiftRight (positive : ¬ count < 0) (small : count.toInt.toNat < 64) :
    (value >>> count).toInt = value.toInt / 2 ^ count.toInt.toNat := by
  rw [← Int64.toInt_toBitVec, Int64.toBitVec_shiftRight, BitVec.toInt_sshiftRight',
    toNat_smod positive small, Int.shiftRight_eq_div_pow, Int64.toInt_toBitVec]
  push_cast
  rfl

end

-- ---------------------------------------------------------------------------
-- Powers of two
-- ---------------------------------------------------------------------------

section
variable {n : Int} {places : Nat}

theorem fits_iff_bmod_eq : Fits n ↔ n.bmod (2 ^ 64) = n := by
  unfold Fits
  constructor
  · rintro ⟨least, most⟩
    exact Int.bmod_eq_of_le least most
  · intro kept
    have least := Int.le_bmod (x := n) (m := 2 ^ 64) (by decide)
    have most := Int.bmod_lt (x := n) (m := 2 ^ 64) (by decide)
    omega

/-- Cutting a multiple of `2 ^ places` leaves one. -/
theorem two_pow_dvd_bmod (small : places ≤ 64) : 2 ^ places ∣ (n * 2 ^ places).bmod (2 ^ 64) := by
  have width : (2 : Int) ^ places ∣ (2 ^ 64 : Nat) := by
    push_cast
    exact pow_dvd_pow 2 small
  rw [Int.bmod_eq_self_sub_mul_bdiv]
  exact dvd_sub (Dvd.intro_left n rfl) (width.mul_right _)

/-- Dividing the cut product gives the factor back exactly if nothing was cut. -/
theorem bmod_ediv_eq_iff (small : places ≤ 64) :
    (n * 2 ^ places).bmod (2 ^ 64) / 2 ^ places = n ↔ Fits (n * 2 ^ places) := by
  rw [fits_iff_bmod_eq]
  constructor
  · intro back
    conv_rhs => rw [← back]
    exact (Int.ediv_mul_cancel (two_pow_dvd_bmod small)).symm
  · intro kept
    rw [kept]
    exact Int.mul_ediv_cancel n (pow_ne_zero places two_ne_zero)

theorem not_fits_mul_two_pow (nonzero : n ≠ 0) (large : 64 ≤ places) :
    ¬ Fits (n * 2 ^ places) := by
  obtain ⟨more, rfl⟩ := Nat.exists_eq_add_of_le large
  rw [pow_add, ← mul_assoc]
  refine not_fits_mul ?_ (pow_pos two_pos more)
  unfold Fits
  omega

/-- What a word is divided by beyond its sign leaves only the sign. -/
theorem ediv_two_pow (h : Fits n) (large : 63 ≤ places) : n / 2 ^ places = n / 2 ^ 63 := by
  obtain ⟨least, most⟩ := h
  have power : (2 : Int) ^ 63 ≤ 2 ^ places := pow_le_pow_right₀ one_le_two large
  by_cases sign : 0 ≤ n
  · rw [Int.ediv_eq_zero_of_lt sign (by omega), Int.ediv_eq_zero_of_lt sign (by omega)]
  · have negative {d : Int} (wide : 2 ^ 63 ≤ d) : n / d = -1 :=
      (Int.ediv_eq_iff_of_pos (by omega)).2 (by omega)
    rw [negative power, negative le_rfl]

end

-- ---------------------------------------------------------------------------
-- Checked shifts
-- ---------------------------------------------------------------------------

section
variable {value count : Int64}

theorem shiftLeft_eq (positive : ¬ count < 0) :
    shiftLeft value count = narrow (value.toInt * 2 ^ count.toInt.toNat) := by
  rw [shiftLeft, if_neg positive]
  by_cases zero : value = 0
  · rw [if_pos zero, zero, Int64.toInt_zero, zero_mul]
    exact (narrow_eq_ok_iff.2 rfl).symm
  rw [if_neg zero]
  by_cases large : 64 ≤ count
  · have high : 64 ≤ count.toInt := Int64.le_iff_toInt_le.1 large
    rw [if_pos large, narrow_of_not_fits]
    exact not_fits_mul_two_pow (toInt_ne_zero zero) (by omega)
  have small : count.toInt.toNat < 64 := by
    have high : count.toInt < 64 := Int64.lt_iff_toInt_lt.1 (Int64.not_le.1 large)
    omega
  have back : value <<< count >>> count = value ↔ Fits (value.toInt * 2 ^ count.toInt.toNat) := by
    rw [← Int64.toInt_inj, toInt_shiftRight positive small, toInt_shiftLeft positive small,
      bmod_ediv_eq_iff small.le]
  rw [if_neg large]
  by_cases fits : Fits (value.toInt * 2 ^ count.toInt.toNat)
  · refine (if_pos (back.2 fits)).trans (narrow_eq_ok_iff.2 ?_).symm
    rw [toInt_shiftLeft positive small, fits_iff_bmod_eq.1 fits]
  · exact (if_neg (back.not.2 fits)).trans (narrow_of_not_fits fits).symm

theorem exists_shiftRight (value : Int64) (positive : ¬ count < 0) :
    ∃ w, shiftRight value count = .ok w ∧ w.toInt = value.toInt / 2 ^ count.toInt.toNat := by
  refine ⟨_, if_neg positive, ?_⟩
  have low := toInt_nonneg positive
  by_cases small : count < 63
  · have high : count.toInt < 63 := Int64.lt_iff_toInt_lt.1 small
    rw [if_pos small, toInt_shiftRight positive (by omega)]
  · have high : 63 ≤ count.toInt := Int64.le_iff_toInt_le.1 (Int64.not_lt.1 small)
    rw [if_neg small, toInt_shiftRight (by decide) (by decide),
      ediv_two_pow (fits_toInt value) (show 63 ≤ count.toInt.toNat by omega)]
    rfl

/-- Shifting right undoes a shift to the left that lost nothing. -/
theorem shiftRight_of_shiftLeft {w : Int64} (positive : ¬ count < 0)
    (shifted : shiftLeft value count = .ok w) : shiftRight w count = .ok value := by
  rw [shiftLeft_eq positive, narrow_eq_ok_iff] at shifted
  obtain ⟨back, run, quotient⟩ := exists_shiftRight w positive
  rw [shifted, Int.mul_ediv_cancel _ (pow_ne_zero _ two_ne_zero), Int64.toInt_inj] at quotient
  rw [run, quotient]

end

theorem floor_div_two_pow (n : Int) (places : Nat) :
    ⌊(n : ℚ) / 2 ^ places⌋ = n / 2 ^ places := by
  have floor := Rat.floor_intCast_div_natCast n (2 ^ places)
  push_cast at floor
  exact floor

/-- Shifting left multiplies by a power of two if a word holds the product, and is an
overflow otherwise. Shifting right divides by the power and rounds down, whatever the
count, and undoes what was shifted left. Negative counts are refused. -/
theorem shifts_exact (value count : Int64) :
    (count < 0 → shiftLeft value count = .error .negativeShift ∧
      shiftRight value count = .error .negativeShift) ∧
    (0 ≤ count →
      (∀ w, shiftLeft value count = .ok w ↔ w.toInt = value.toInt * 2 ^ count.toInt.toNat) ∧
      (shiftLeft value count = .error .overflow ↔
        ¬ Fits (value.toInt * 2 ^ count.toInt.toNat)) ∧
      (∃ w, shiftRight value count = .ok w ∧
        w.toInt = ⌊(value.toInt : ℚ) / 2 ^ count.toInt.toNat⌋) ∧
      ∀ w, shiftLeft value count = .ok w → shiftRight w count = .ok value) := by
  refine ⟨fun negative => ⟨if_pos negative, if_pos negative⟩, fun positive => ?_⟩
  rw [← Int64.not_lt] at positive
  refine ⟨fun w => ?_, ?_, ?_, fun w => shiftRight_of_shiftLeft positive⟩
  · rw [shiftLeft_eq positive, narrow_eq_ok_iff]
  · rw [shiftLeft_eq positive, narrow_eq_overflow_iff]
  · rw [floor_div_two_pow]
    exact exists_shiftRight value positive

/-- By 63 places `-1` becomes the least word and `1` overflows; by ever so many places
back, `-1` is left. -/
theorem shifts_exact_signs :
    shiftLeft (-1) 63 = .ok Int64.minValue ∧ shiftRight Int64.minValue 63 = .ok (-1) ∧
    shiftLeft 1 63 = .error .overflow ∧
    (∃ w, shiftRight (-1) Int64.maxValue = .ok w ∧
      w.toInt = ⌊((-1 : Int) : ℚ) / 2 ^ (2 ^ 63 - 1)⌋) ∧
    shiftLeft 0 (-1) = .error .negativeShift := by
  obtain ⟨-, shifted⟩ := shifts_exact (-1) 63
  obtain ⟨product, -, -, back⟩ := shifted (by decide)
  have least : shiftLeft (-1) 63 = .ok Int64.minValue := (product _).2 (by decide)
  refine ⟨least, back _ least, ?_, ?_, ?_⟩
  · exact (((shifts_exact 1 63).2 (by decide)).2.1).2 (by decide)
  · exact ((shifts_exact (-1) Int64.maxValue).2 (by decide)).2.2.1
  · exact ((shifts_exact 0 (-1)).1 (by decide)).1

end ObjectModel.Checked
