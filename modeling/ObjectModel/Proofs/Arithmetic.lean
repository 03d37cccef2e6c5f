import Mathlib.Data.Rat.Floor
import Mathlib.Tactic.FieldSimp
import Mathlib.Tactic.Ring
import ObjectModel.Checked

/-!
# Exact arithmetic

An operation on words answers the mathematical result if a word holds it, and
refuses otherwise. For powers this means that a square that is too large stands
for a power that is too large, also where the power is negative. Quotients are
rounded down, and the remainder is what is then left.

Main statements: `pow_exact` and `floorDiv_floorMod`.
-/

namespace ObjectModel.Checked

-- ---------------------------------------------------------------------------
-- Words
-- ---------------------------------------------------------------------------

section
variable {n : Int} {w : Int64}

theorem exists_narrow (h : Fits n) : ∃ w, narrow n = .ok w ∧ w.toInt = n := by
  refine ⟨Int64.ofInt n, ?_, Int64.toInt_ofInt_of_le h.1 h.2⟩
  simp [narrow, narrow?, h]

theorem narrow_of_not_fits (h : ¬ Fits n) : narrow n = .error .overflow := by
  simp [narrow, narrow?, h]

theorem narrow_eq_ok_iff : narrow n = .ok w ↔ w.toInt = n := by
  constructor
  · intro narrowed
    by_cases h : Fits n
    · obtain ⟨w', narrowed', rfl⟩ := exists_narrow h
      cases narrowed'.symm.trans narrowed
      rfl
    · cases (narrow_of_not_fits h).symm.trans narrowed
  · rintro rfl
    simp [narrow, narrow?_toInt]

theorem narrow_ne_negativeExponent : narrow n ≠ .error .negativeExponent := by
  by_cases h : Fits n
  · obtain ⟨w, narrowed, -⟩ := exists_narrow h
    simp [narrowed]
  · simp [narrow_of_not_fits h]

theorem narrow_eq_overflow_iff : narrow n = .error .overflow ↔ ¬ Fits n := by
  refine ⟨fun refused h => ?_, narrow_of_not_fits⟩
  obtain ⟨w, narrowed, -⟩ := exists_narrow h
  cases narrowed.symm.trans refused

end

-- ---------------------------------------------------------------------------
-- Powers
-- ---------------------------------------------------------------------------

section
variable {n m s : Int}

/-- What is too large stays so when it is multiplied by a positive number. -/
theorem not_fits_mul (h : ¬ Fits n) (positive : 0 < m) : ¬ Fits (n * m) := by
  unfold Fits at h ⊢
  by_cases sign : 0 ≤ n
  · have := Int.mul_le_mul_of_nonneg_left (show 1 ≤ m by omega) sign
    omega
  · have := Int.mul_le_mul_of_nonpos_left (show n ≤ 0 by omega) (show 1 ≤ m by omega)
    omega

/-- A square that is too large is farther from zero than the least word, which is
no square. So it is too large under any sign. -/
theorem not_fits_mul_square (h : ¬ Fits (s * s)) (nonzero : n ≠ 0) : ¬ Fits (n * (s * s)) := by
  have far : 0x8000000000000000 < s * s := by
    have positive : 0 ≤ s * s := mul_self_nonneg s
    by_cases small : s.natAbs ≤ 3037000499
    · have := Nat.mul_le_mul small small
      rw [← Int.natAbs_mul] at this
      unfold Fits at h
      omega
    · have large : 3037000500 ≤ s.natAbs := by omega
      have := Nat.mul_le_mul large large
      rw [← Int.natAbs_mul] at this
      omega
  unfold Fits
  by_cases sign : 0 < n
  · have := Int.mul_le_mul_of_nonneg_right (show 1 ≤ n by omega) (show 0 ≤ s * s by omega)
    omega
  · have := Int.mul_le_mul_of_nonneg_right (show n ≤ -1 by omega) (show 0 ≤ s * s by omega)
    omega

/-- If a square is too large, so is what any remaining power of it is multiplied in. -/
theorem not_fits_mul_pow (h : ¬ Fits (s * s)) (nonzero : n ≠ 0) {rest : Nat} (remains : rest ≠ 0) :
    ¬ Fits (n * (s * s) ^ rest) := by
  obtain ⟨k, rfl⟩ := Nat.exists_eq_succ_of_ne_zero remains
  have hs : s ≠ 0 := by
    rintro rfl
    exact h (by decide)
  have power : s ^ (k + 1) * s ^ (k + 1) = s * s * (s ^ k * s ^ k) := by ring
  rw [mul_pow]
  refine not_fits_mul_square ?_ nonzero
  rw [power]
  exact not_fits_mul h (mul_self_pos.2 (pow_ne_zero k hs))

/-- A power is one of the square, with as many factors as half of the exponent. -/
theorem int_pow_even {exponent : Nat} (even : exponent % 2 ≠ 1) :
    n ^ exponent = (n * n) ^ (exponent / 2) := by
  conv_lhs => rw [← Nat.div_add_mod exponent 2, Nat.mod_two_ne_one.1 even]
  rw [add_zero, pow_mul, sq]

/-- One factor is left of an odd exponent. -/
theorem int_pow_odd {exponent : Nat} (odd : exponent % 2 = 1) :
    n ^ exponent = n * (n * n) ^ (exponent / 2) := by
  conv_lhs => rw [← Nat.div_add_mod exponent 2, odd]
  rw [pow_succ', pow_mul, sq]

end

section
variable {result base : Int64}

/-- The base is squared for the bits that remain. Unless the base is zero the result
is not, and then an overflow of the square is one of the power. -/
theorem powLoop_square (started : result.toInt = 0 → base.toInt = 0) {rest : Nat}
    (remains : rest ≠ 0)
    (loop : ∀ square : Int64, square.toInt = base.toInt * base.toInt →
      powLoop result square rest = narrow (result.toInt * square.toInt ^ rest)) :
    (do powLoop result (← mul base base) rest) =
      narrow (result.toInt * (base.toInt * base.toInt) ^ rest) := by
  by_cases fits : Fits (base.toInt * base.toInt)
  · obtain ⟨w, narrowed, square⟩ := exists_narrow fits
    rw [mul, narrowed, ← square]
    exact loop w square
  · have nonzero : result.toInt ≠ 0 := fun zero => fits (by simp [started zero, Fits])
    rw [mul, narrow_of_not_fits fits, narrow_of_not_fits (not_fits_mul_pow fits nonzero remains)]
    rfl

/-- The loop answers `result * base ^ exponent`. -/
theorem powLoop_eq (started : result.toInt = 0 → base.toInt = 0) (exponent : Nat) :
    powLoop result base exponent = narrow (result.toInt * base.toInt ^ exponent) := by
  -- A result of zero would hide that a square is too large; it comes from a base of zero only.
  induction exponent using Nat.strong_induction_on generalizing result base with
  | _ exponent ih =>
    rw [powLoop]
    split
    · next none =>
      rw [none, pow_zero, mul_one]
      exact (narrow_eq_ok_iff.2 rfl).symm
    next some =>
    have remaining {r : Int64} (started : r.toInt = 0 → base.toInt = 0) :
        (if exponent / 2 = 0 then pure r else do powLoop r (← mul base base) (exponent / 2)) =
          narrow (r.toInt * (base.toInt * base.toInt) ^ (exponent / 2)) := by
      split
      · next last =>
        rw [last, pow_zero, mul_one]
        exact (narrow_eq_ok_iff.2 rfl).symm
      · next more =>
        refine powLoop_square started more fun square h => ih _ (by omega) fun zero => ?_
        rw [h, started zero, mul_zero]
    by_cases odd : exponent % 2 = 1
    · rw [if_pos odd, int_pow_odd odd, ← mul_assoc]
      by_cases fits : Fits (result.toInt * base.toInt)
      · obtain ⟨w, narrowed, product⟩ := exists_narrow fits
        rw [mul, narrowed, ← product]
        refine remaining fun zero => ?_
        rw [product, mul_eq_zero] at zero
        exact zero.elim started id
      · have nonzero : base.toInt ≠ 0 := fun zero => fits (by simp [zero, Fits])
        have positive : 0 < (base.toInt * base.toInt) ^ (exponent / 2) :=
          pow_pos (mul_self_pos.2 nonzero) _
        rw [mul, narrow_of_not_fits fits, narrow_of_not_fits (not_fits_mul fits positive)]
        rfl
    · rw [if_neg odd, int_pow_even odd]
      exact remaining started

end

/-- A power is what it is in mathematics if a word holds that, and an overflow
otherwise. There are no powers with negative exponents. -/
theorem pow_exact (base exponent : Int64) :
    (∀ w : Int64, pow base exponent = .ok w ↔
      0 ≤ exponent ∧ w.toInt = base.toInt ^ exponent.toInt.toNat) ∧
    (pow base exponent = .error .overflow ↔
      0 ≤ exponent ∧ ¬ Fits (base.toInt ^ exponent.toInt.toNat)) ∧
    (pow base exponent = .error .negativeExponent ↔ exponent < 0) := by
  have loop : powLoop 1 base exponent.toInt.toNat = narrow (base.toInt ^ exponent.toInt.toNat) := by
    rw [powLoop_eq (fun zero => by cases zero), Int64.toInt_one, one_mul]
  by_cases negative : exponent < 0
  · have sign : ¬ 0 ≤ exponent := Int64.not_le.2 negative
    simp [pow, negative, sign]
  · have sign : 0 ≤ exponent := Int64.not_lt.1 negative
    rw [pow, if_neg negative, loop]
    simp only [sign, true_and, negative, iff_false]
    exact ⟨fun w => narrow_eq_ok_iff, narrow_eq_overflow_iff, narrow_ne_negativeExponent⟩

example : pow (-2) 63 = .ok Int64.minValue := by cbv

-- ---------------------------------------------------------------------------
-- Quotients
-- ---------------------------------------------------------------------------

/-- A quotient with what is left, which is less than the divisor in size. -/
structure Divides (a b q r : Int) : Prop where
  eq : a = q * b + r
  size : r.natAbs < b.natAbs

section
variable {a b q r : Int}

theorem divides_tdiv (nonzero : b ≠ 0) : Divides a b (a.tdiv b) (a.tmod b) := by
  refine ⟨?_, ?_⟩
  · rw [mul_comm, Int.mul_tdiv_add_tmod]
  · rw [Int.natAbs_tmod]
    exact Nat.mod_lt _ (Int.natAbs_pos.2 nonzero)

/-- Truncating leaves what has the sign of the dividend. -/
theorem tmod_neg_iff (h : a.tmod b ≠ 0) : a.tmod b < 0 ↔ a < 0 := by
  have sign := Int.sign_tmod a b
  split at sign
  · exact absurd (Int.sign_eq_zero_iff_zero.1 sign) h
  · rw [← Int.sign_eq_neg_one_iff_neg, sign, Int.sign_eq_neg_one_iff_neg]

/-- One less of the quotient leaves one divisor more. -/
theorem Divides.pred (h : Divides a b q r) (some : r ≠ 0) (sign : ¬(r < 0 ↔ b < 0)) :
    Divides a b (q - 1) (r + b) := by
  have size := h.size
  refine ⟨?_, by omega⟩
  rw [h.eq, sub_one_mul]
  omega

/-- What is left has the sign of the divisor, so the quotient is rounded down. -/
theorem Divides.floor_eq (h : Divides a b q r) (sign : r = 0 ∨ (r < 0 ↔ b < 0)) :
    ⌊(a : ℚ) / b⌋ = q := by
  have size := h.size
  have nonzero : (b : ℚ) ≠ 0 := by
    rw [Int.cast_ne_zero]
    omega
  have split : (a : ℚ) / b = q + r / b := by
    rw [h.eq]
    push_cast
    field_simp
  rw [split, Int.floor_intCast_add, add_eq_left, Int.floor_eq_zero_iff]
  by_cases negative : b < 0
  · have below : (b : ℚ) < 0 := by exact_mod_cast negative
    refine ⟨div_nonneg_of_nonpos ?_ below.le, (div_lt_one_of_neg below).2 ?_⟩
    · exact_mod_cast show r ≤ 0 by omega
    · exact_mod_cast show b < r by omega
  · have above : (0 : ℚ) < b := by exact_mod_cast show 0 < b by omega
    refine ⟨div_nonneg ?_ above.le, (div_lt_one above).2 ?_⟩
    · exact_mod_cast show 0 ≤ r by omega
    · exact_mod_cast show r < b by omega

end

section
variable {a b : Int64}

theorem toInt_add_of_fits (h : Fits (a.toInt + b.toInt)) :
    (a + b).toInt = a.toInt + b.toInt := by
  rw [Int64.toInt_add]
  exact Int.bmod_eq_of_le h.1 h.2

theorem toInt_sub_of_fits (h : Fits (a.toInt - b.toInt)) :
    (a - b).toInt = a.toInt - b.toInt := by
  rw [Int64.toInt_sub]
  exact Int.bmod_eq_of_le h.1 h.2

/-- Only the least word is truncated to what is no word, and only by `-1`. -/
theorem toInt_div_of_ne (h : ¬(a = Int64.minValue ∧ b = -1)) :
    (a / b).toInt = a.toInt.tdiv b.toInt := by
  by_cases hb : b = -1
  · exact Int64.toInt_div_of_ne_left a b fun ha => h ⟨ha, hb⟩
  · exact Int64.toInt_div_of_ne_right a b hb

theorem toInt_ne_zero (h : b ≠ 0) : b.toInt ≠ 0 := fun zero => h (Int64.toInt_inj.1 zero)

theorem neg_iff : a < 0 ↔ a.toInt < 0 := Int64.lt_iff_toInt_lt

theorem mod_ne_zero_iff : a % b ≠ 0 ↔ a.toInt.tmod b.toInt ≠ 0 := by
  rw [ne_eq, ← Int64.toInt_inj, Int64.toInt_mod, Int64.toInt_zero]

/-- The division is not exact and the operands have different signs, so that
truncating rounds up. -/
def RoundsUp (a b : Int64) : Prop := a % b ≠ 0 ∧ (a < 0) ≠ (b < 0)

instance (a b : Int64) : Decidable (RoundsUp a b) := inferInstanceAs (Decidable (_ ∧ _))

/-- In other words, what truncating leaves has not the sign of the divisor. So the
quotient and the remainder are corrected for the same operands. -/
theorem roundsUp_iff : RoundsUp a b ↔ a % b ≠ 0 ∧ (a % b < 0) ≠ (b < 0) := by
  refine and_congr_right fun left => ?_
  have sign := tmod_neg_iff (mod_ne_zero_iff.1 left)
  rw [ne_eq, ne_eq, eq_iff_iff, eq_iff_iff, neg_iff, neg_iff (a := a % b), Int64.toInt_mod, sign]

theorem RoundsUp.sign (h : RoundsUp a b) :
    a.toInt.tmod b.toInt ≠ 0 ∧ ¬(a.toInt.tmod b.toInt < 0 ↔ b.toInt < 0) := by
  obtain ⟨left, differ⟩ := roundsUp_iff.1 h
  rw [ne_eq, eq_iff_iff, neg_iff, neg_iff, Int64.toInt_mod] at differ
  exact ⟨mod_ne_zero_iff.1 left, differ⟩

theorem sign_of_not_roundsUp (h : ¬ RoundsUp a b) :
    a.toInt.tmod b.toInt = 0 ∨ (a.toInt.tmod b.toInt < 0 ↔ b.toInt < 0) := by
  by_contra other
  rw [not_or] at other
  refine h (roundsUp_iff.2 ⟨mod_ne_zero_iff.2 other.1, ?_⟩)
  rw [ne_eq, eq_iff_iff, neg_iff, neg_iff, Int64.toInt_mod]
  exact other.2

/-- A divisor that leaves something is not a unit, so the quotient is not the least
word. -/
theorem RoundsUp.fits_quotient (h : RoundsUp a b) (nonzero : b ≠ 0) :
    Fits (a.toInt.tdiv b.toInt - 1) := by
  have least := Int64.le_toInt a
  have most := Int64.toInt_lt a
  have size := (divides_tdiv (a := a.toInt) (toInt_ne_zero nonzero)).size
  have left := h.sign.1
  have half : (a.toInt.tdiv b.toInt).natAbs ≤ a.toInt.natAbs / 2 := by
    rw [Int.natAbs_tdiv]
    exact Nat.div_le_div_left (by omega) (by omega)
  unfold Fits
  omega

theorem RoundsUp.fits_rest (h : RoundsUp a b) (nonzero : b ≠ 0) :
    Fits (a.toInt.tmod b.toInt + b.toInt) := by
  have least := Int64.le_toInt b
  have most := Int64.toInt_lt b
  have size := (divides_tdiv (a := a.toInt) (toInt_ne_zero nonzero)).size
  have sign := h.sign.2
  unfold Fits
  omega

/-- The quotient and the remainder, with or without the correction. -/
theorem exists_floorDiv_floorMod (nonzero : b ≠ 0) (held : ¬(a = Int64.minValue ∧ b = -1)) :
    ∃ q r, floorDiv a b = .ok q ∧ floorMod a b = .ok r ∧
      Divides a.toInt b.toInt q.toInt r.toInt ∧
      (r.toInt = 0 ∨ (r.toInt < 0 ↔ b.toInt < 0)) := by
  have truncated := divides_tdiv (a := a.toInt) (toInt_ne_zero nonzero)
  rw [floorDiv, if_neg nonzero, if_neg held, floorMod, if_neg nonzero, if_neg held]
  by_cases up : RoundsUp a b
  · have quotient : (a / b - 1).toInt = a.toInt.tdiv b.toInt - 1 := by
      rw [← toInt_div_of_ne held]
      exact toInt_sub_of_fits (toInt_div_of_ne held ▸ up.fits_quotient nonzero)
    have rest : (a % b + b).toInt = a.toInt.tmod b.toInt + b.toInt := by
      rw [← Int64.toInt_mod]
      exact toInt_add_of_fits (Int64.toInt_mod a b ▸ up.fits_rest nonzero)
    obtain ⟨left, differ⟩ := up.sign
    refine ⟨_, _, if_pos up, if_pos (roundsUp_iff.1 up), ?_, ?_⟩
    · rw [quotient, rest]
      exact truncated.pred left differ
    · have size := truncated.size
      rw [rest]
      omega
  · refine ⟨_, _, if_neg up, if_neg (roundsUp_iff.not.1 up), ?_, ?_⟩
    · rwa [toInt_div_of_ne held, Int64.toInt_mod]
    · rw [Int64.toInt_mod]
      exact sign_of_not_roundsUp up

/-- Quotients are rounded down, and the remainder is what is left. It is zero or has
the sign of the divisor, and is less than that in size. No step on the way leaves the
words. Division by zero is refused, and so is the one quotient that no word holds. -/
theorem floorDiv_floorMod (a b : Int64) :
    (b = 0 → floorDiv a b = .error .zeroDivision ∧ floorMod a b = .error .zeroDivision) ∧
    (a = Int64.minValue ∧ b = -1 →
      floorDiv a b = .error .overflow ∧ floorMod a b = .error .overflow) ∧
    (b ≠ 0 → ¬(a = Int64.minValue ∧ b = -1) →
      (∃ q r, floorDiv a b = .ok q ∧ floorMod a b = .ok r ∧
        a.toInt = q.toInt * b.toInt + r.toInt ∧ (r = 0 ∨ (r < 0 ↔ b < 0)) ∧
        r.toInt.natAbs < b.toInt.natAbs ∧ ⌊(a.toInt : ℚ) / b.toInt⌋ = q.toInt) ∧
      Fits (a.toInt.tdiv b.toInt) ∧
      (a % b ≠ 0 ∧ (a < 0) ≠ (b < 0) → Fits ((a / b).toInt - 1)) ∧
      (a % b ≠ 0 ∧ (a % b < 0) ≠ (b < 0) → Fits ((a % b).toInt + b.toInt))) := by
  refine ⟨?_, ?_, fun nonzero held => ⟨?_, ?_, fun up => ?_, fun up => ?_⟩⟩
  · rintro rfl
    exact ⟨rfl, rfl⟩
  · rintro ⟨rfl, rfl⟩
    exact ⟨rfl, rfl⟩
  · obtain ⟨q, r, quotient, rest, divides, sign⟩ := exists_floorDiv_floorMod nonzero held
    refine ⟨q, r, quotient, rest, divides.eq, ?_, divides.size, divides.floor_eq sign⟩
    rwa [neg_iff, neg_iff, ← Int64.toInt_inj, Int64.toInt_zero]
  · rw [← toInt_div_of_ne held]
    exact fits_toInt _
  · rw [toInt_div_of_ne held]
    exact RoundsUp.fits_quotient up nonzero
  · rw [Int64.toInt_mod]
    exact (roundsUp_iff.2 up).fits_rest nonzero

end

/-- The least word leaves one when it is divided by three, and its quotient is then
one below the truncated one. -/
theorem floorDiv_floorMod_least : ∃ q r, floorDiv Int64.minValue 3 = .ok q ∧
    floorMod Int64.minValue 3 = .ok r ∧ q.toInt = -3074457345618258603 ∧ r.toInt = 1 ∧
    Int64.minValue.toInt = q.toInt * 3 + r.toInt ∧ Fits ((Int64.minValue / 3).toInt - 1) := by
  obtain ⟨⟨q, r, quotient, rest, whole, -⟩, -, fits, -⟩ :=
    (floorDiv_floorMod Int64.minValue 3).2.2 (by decide) (by decide)
  have hq : floorDiv Int64.minValue 3 = .ok (-3074457345618258603) := by decide
  have hr : floorMod Int64.minValue 3 = .ok 1 := by decide
  cases hq.symm.trans quotient
  cases hr.symm.trans rest
  exact ⟨_, _, quotient, rest, by decide, by decide, whole, fits (by decide)⟩

end ObjectModel.Checked
