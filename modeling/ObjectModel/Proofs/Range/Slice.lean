import Mathlib.Tactic.Ring
import ObjectModel.Proofs.Range.Denotation
import ObjectModel.Proofs.Slice.Selection

/-!
# Slices of ranges

A slice of a range is again a range, if its three numbers are words. It denotes
the elements at the selected positions. The computation stays within 128 bits.

Main statements: `Range.slice?_eq`, `Range.elements_slice` and
`Range.sliceWide?_eq`.
-/

namespace ObjectModel

open Checked

namespace Range

variable {r t : Range} {s : Slice}

/-- The numbers of the slice of a range, as integers. -/
def sliceStart (r : Range) (s : Slice) : Int :=
  r.start.toInt + (s.resolve r.count).start * r.step.toInt

def sliceStep (r : Range) (s : Slice) : Int := r.step.toInt * (s.resolve r.count).step

def sliceStop (r : Range) (s : Slice) : Int :=
  r.sliceStart s + (s.resolve r.count).count * r.sliceStep s

theorem sliceStep_ne (r : Range) (s : Slice) : r.sliceStep s ≠ 0 := by
  rw [sliceStep, Slice.resolve_eq]
  exact Int.mul_ne_zero r.step_toInt_ne s.step_toInt_ne

theorem narrow?_eq_some {n : Int} {w : Int64} : narrow? n = some w ↔ w.toInt = n :=
  ⟨toInt_of_narrow?, fun h => h ▸ narrow?_toInt w⟩

theorem make?_eq_some {start stop step : Int64} :
    make? start stop step = some t ↔ t.start = start ∧ t.stop = stop ∧ t.step = step := by
  obtain ⟨_, _, _, nonzero⟩ := t
  unfold make?
  split
  · next h =>
    constructor
    · intro made
      cases made
    · rintro ⟨-, -, step⟩
      exact absurd (step.trans h) nonzero
  · rw [Option.some.injEq, mk.injEq]
    exact and_congr eq_comm (and_congr eq_comm eq_comm)

/-- There is a slice exactly when its three numbers are words; these are then
its numbers. -/
theorem slice?_eq_some : r.slice? s = some t ↔ t.start.toInt = r.sliceStart s ∧
    t.stop.toInt = r.sliceStop s ∧ t.step.toInt = r.sliceStep s := by
  rw [slice?]
  simp only [Option.bind_eq_bind, Option.bind_eq_some_iff, narrow?_eq_some, make?_eq_some]
  constructor
  · rintro ⟨_, start, _, stop, _, step, rfl, rfl, rfl⟩
    exact ⟨start, stop, step⟩
  · rintro ⟨start, stop, step⟩
    exact ⟨_, start, _, stop, _, step, rfl, rfl, rfl⟩

/-- Three words are the numbers of a range, unless they do not move. -/
theorem exists_of_fits {start stop step : Int} (hstart : Fits start) (hstop : Fits stop)
    (hstep : Fits step) (nonzero : step ≠ 0) :
    ∃ t : Range, t.start.toInt = start ∧ t.stop.toInt = stop ∧ t.step.toInt = step := by
  have word {n : Int} (h : Fits n) : (Int64.ofInt n).toInt = n :=
    Int64.toInt_ofInt_of_le h.1 h.2
  have moves : Int64.ofInt step ≠ 0 := fun h => nonzero (by rw [← word hstep, h]; rfl)
  exact ⟨⟨_, _, _, moves⟩, word hstart, word hstop, word hstep⟩

theorem slice?_isSome : (r.slice? s).isSome ↔
    Fits (r.sliceStart s) ∧ Fits (r.sliceStop s) ∧ Fits (r.sliceStep s) := by
  rw [Option.isSome_iff_exists]
  constructor
  · rintro ⟨t, h⟩
    obtain ⟨start, stop, step⟩ := slice?_eq_some.1 h
    exact ⟨start ▸ fits_toInt _, stop ▸ fits_toInt _, step ▸ fits_toInt _⟩
  · rintro ⟨start, stop, step⟩
    obtain ⟨t, numbers⟩ := exists_of_fits start stop step (r.sliceStep_ne s)
    exact ⟨t, slice?_eq_some.2 numbers⟩

theorem count_slice (h : r.slice? s = some t) : t.count = (s.resolve r.count).count := by
  obtain ⟨start, stop, step⟩ := slice?_eq_some.1 h
  rw [count, start, stop, step]
  exact lengthOf_add_mul _ (r.sliceStep_ne s) _

/-- The selected elements are a progression, whether or not its end is a word. -/
theorem map_progression_slice (r : Range) (s : Slice) :
    (progression (r.sliceStart s) (r.sliceStop s) (r.sliceStep s)).map some =
      (s.resolve r.count).positions.map (r.elements[·]?) := by
  rw [progression_eq_map, sliceStop, lengthOf_add_mul _ (r.sliceStep_ne s),
    Slice.Selection.positions, List.map_map, List.map_map]
  refine List.map_congr_left fun k hk => ?_
  obtain ⟨low, high⟩ := Slice.inside_of_lt (List.mem_range.1 hk)
  have inside : ((s.resolve r.count).start + k * (s.resolve r.count).step).toNat < r.count := by
    omega
  simp only [Function.comp_apply]
  rw [getElem?_elements inside, toInt_nth inside, Int.toNat_of_nonneg low, sliceStart, sliceStep]
  ring_nf

theorem elements_slice (h : r.slice? s = some t) :
    t.elements.map some = (s.resolve r.count).positions.map (r.elements[·]?) := by
  obtain ⟨start, stop, step⟩ := slice?_eq_some.1 h
  rw [elements, start, stop, step, map_progression_slice]

end Range

-- ---------------------------------------------------------------------------
-- 128 bits
-- ---------------------------------------------------------------------------

/-- The integers of 128 bits. -/
def Wide (n : Int) : Prop := -2 ^ 127 ≤ n ∧ n < 2 ^ 127

instance (n : Int) : Decidable (Wide n) := inferInstanceAs (Decidable (_ ∧ _))

def wide? (n : Int) : Option Int := if Wide n then some n else none

theorem wide?_bind {α : Type} {n : Int} (h : Wide n) (f : Int → Option α) :
    wide? n >>= f = f n := by
  rw [wide?, if_pos h]
  rfl

/-- The number of steps, or nothing when an intermediate result is too wide. The
computations below are checked in the same way. -/
def Range.lengthWide? (start stop step : Int) : Option Nat := do
  if 0 < step ∧ start < stop then
    let last ← wide? ((← wide? (stop - start)) - 1)
    return (← wide? ((← wide? (last.tdiv step)) + 1)).toNat
  else if step < 0 ∧ stop < start then
    let last ← wide? ((← wide? (start - stop)) - 1)
    return (← wide? ((← wide? (last.tdiv (← wide? (-step)))) + 1)).toNat
  else return 0

def Slice.clampWide? (length lower upper default : Int) : Option Int64 → Option Int
  | none => some default
  | some i => if i.toInt < 0 then (wide? (i.toInt + length)).map (max · lower)
    else some (min i.toInt upper)

def Slice.resolveWide? (s : Slice) (length : Nat) : Option Selection := do
  let step := s.step.toInt
  let lower : Int := if step < 0 then -1 else 0
  let upper ← if step < 0 then wide? (length - 1) else some (length : Int)
  let start ← clampWide? length lower upper (if step < 0 then upper else lower) s.start
  let stop ← clampWide? length lower upper (if step < 0 then lower else upper) s.stop
  return ⟨start, stop, step, ← Range.lengthWide? start stop step⟩

def Range.sliceWide? (r : Range) (s : Slice) : Option (Option Range) := do
  let sel ← s.resolveWide? r.count
  let step ← wide? (r.step.toInt * sel.step)
  let start ← wide? (r.start.toInt + (← wide? (sel.start * r.step.toInt)))
  let stop ← wide? (start + (← wide? (sel.count * step)))
  return do Range.make? (← narrow? start) (← narrow? stop) (← narrow? step)

namespace Range

variable {r : Range} {s : Slice}

/-- Bounds of 66 bits and a step that is a word leave room. -/
theorem lengthWide?_eq {start stop step : Int} (hstart : -2 ^ 65 ≤ start ∧ start ≤ 2 ^ 65)
    (hstop : -2 ^ 65 ≤ stop ∧ stop ≤ 2 ^ 65) (hstep : Fits step) :
    lengthWide? start stop step = some (lengthOf start stop step) := by
  have quotient {d n : Int} (hd : 0 < d) (h0 : 0 ≤ n) (hn : n < 2 ^ 67) :
      n.tdiv d = n / d ∧ 0 ≤ n / d ∧ n / d < 2 ^ 67 := by
    have := Int.ediv_nonneg h0 (Int.le_of_lt hd)
    have := Int.ediv_le_self d h0
    exact ⟨Int.tdiv_eq_ediv_of_nonneg h0, by omega, by omega⟩
  unfold lengthWide? lengthOf
  unfold Fits at hstep
  split
  · next h =>
    obtain ⟨exact, low, high⟩ := quotient h.1 (n := stop - start - 1) (by omega) (by omega)
    rw [wide?_bind ⟨by omega, by omega⟩, wide?_bind ⟨by omega, by omega⟩, exact,
      wide?_bind ⟨by omega, by omega⟩, wide?_bind ⟨by omega, by omega⟩]
    rfl
  · split
    · next h =>
      obtain ⟨exact, low, high⟩ := quotient (d := -step) (n := start - stop - 1) (by omega)
        (by omega) (by omega)
      rw [wide?_bind ⟨by omega, by omega⟩, wide?_bind ⟨by omega, by omega⟩,
        wide?_bind ⟨by omega, by omega⟩, exact, wide?_bind ⟨by omega, by omega⟩,
        wide?_bind ⟨by omega, by omega⟩]
      rfl
    · rfl

theorem count_lt (r : Range) : r.count < 2 ^ 64 := by
  have le := lengthOf_le r.start.toInt r.stop.toInt r.step.toInt
  have start := fits_toInt r.start
  have stop := fits_toInt r.stop
  unfold Fits at start stop
  unfold count
  omega

theorem clampWide?_eq {length : Nat} (h : length < 2 ^ 64) (lower upper default : Int)
    (bound : Option Int64) : Slice.clampWide? length lower upper default bound =
      some (Slice.clamp length lower upper default bound) := by
  cases bound with
  | none => rfl
  | some i =>
    have word := fits_toInt i
    unfold Fits at word
    have wide : wide? (i.toInt + length) = some (i.toInt + length) :=
      if_pos ⟨by omega, by omega⟩
    rw [Slice.clampWide?, Slice.clamp, wide]
    split <;> rfl

theorem resolveWide?_eq {length : Nat} (h : length < 2 ^ 64) :
    s.resolveWide? length = some (s.resolve length) := by
  have step := fits_toInt s.step
  have starts := s.lowest_le_first length
  have stops := s.lowest_le_past length
  have count : lengthWide? (s.resolve length).start (s.resolve length).stop s.step.toInt =
      some (s.resolve length).count := by
    rw [Slice.resolve_eq]
    unfold Slice.lowest Slice.highest at starts stops
    exact lengthWide?_eq (by simp only []; omega) (by simp only []; omega) step
  unfold Slice.resolveWide?
  unfold Slice.resolve at count ⊢
  simp only [clampWide?_eq h]
  by_cases hs : s.step.toInt < 0
  · simp only [if_pos hs] at count ⊢
    rw [wide?_bind ⟨by omega, by omega⟩]
    simp only [Option.bind_eq_bind, Option.bind_some, count]
    rfl
  · simp only [if_neg hs] at count ⊢
    simp only [Option.bind_eq_bind, Option.bind_some, count]
    rfl

theorem fits_of_lt {i : Int} (low : 0 ≤ i) (high : i < r.count) :
    Fits (r.start.toInt + i * r.step.toInt) := by
  have inside : i.toNat < r.count := by omega
  have exact := toInt_nth inside
  rw [Int.toNat_of_nonneg low] at exact
  exact exact ▸ fits_toInt _

/-- A slice starts at most one step away from the elements. -/
theorem start_mul_step (r : Range) (s : Slice) :
    -2 ^ 65 ≤ (s.resolve r.count).start * r.step.toInt ∧
      (s.resolve r.count).start * r.step.toInt ≤ 2 ^ 65 := by
  have start := fits_toInt r.start
  have step := fits_toInt r.step
  have bounds := s.lowest_le_first r.count
  rw [Slice.resolve_eq]
  simp only [Slice.lowest, Slice.highest, Fits] at start step bounds ⊢
  generalize s.first r.count = i at bounds
  rcases (by omega : i = -1 ∨ i = 0 ∨ 0 ≤ i - 1) with rfl | rfl | positive
  · omega
  · omega
  · have before : Fits (r.start.toInt + (i - 1) * r.step.toInt) :=
      fits_of_lt positive (by omega)
    have next : i * r.step.toInt = (i - 1) * r.step.toInt + r.step.toInt := by ring
    unfold Fits at before
    omega

theorem sliceStep_mem (r : Range) (s : Slice) :
    -2 ^ 126 ≤ r.sliceStep s ∧ r.sliceStep s ≤ 2 ^ 126 := by
  have small {n : Int} (h : Fits n) : n.natAbs ≤ 2 ^ 63 := by
    unfold Fits at h
    omega
  have product : (r.sliceStep s).natAbs ≤ 2 ^ 63 * 2 ^ 63 := by
    rw [sliceStep, Slice.resolve_eq, Int.natAbs_mul]
    exact Nat.mul_le_mul (small (fits_toInt _)) (small (fits_toInt _))
  omega

theorem count_mul_step (r : Range) (s : Slice) :
    -2 ^ 126 - 2 ^ 65 ≤ (s.resolve r.count).count * r.sliceStep s ∧
      (s.resolve r.count).count * r.sliceStep s ≤ 2 ^ 126 + 2 ^ 65 := by
  have step := sliceStep_mem r s
  have inside (k : Nat) (h : k < (s.resolve r.count).count) :=
    fits_of_lt (Slice.inside_of_lt h).1 (Slice.inside_of_lt h).2
  cases hc : (s.resolve r.count).count with
  | zero => omega
  | succ c =>
    have first := inside 0 (by omega)
    have last := inside c (by omega)
    -- The slice stops one of its steps after the last selected element.
    have stop : ((c + 1 : Nat) : Int) * r.sliceStep s =
        (r.start.toInt + ((s.resolve r.count).start + c * (s.resolve r.count).step) * r.step.toInt) -
        (r.start.toInt + ((s.resolve r.count).start + (0 : Nat) * (s.resolve r.count).step) *
          r.step.toInt) + r.sliceStep s := by
      rw [sliceStep]
      push_cast
      ring
    unfold Fits at first last
    omega

theorem lengthWide?_eq_count (r : Range) :
    lengthWide? r.start.toInt r.stop.toInt r.step.toInt = some r.count := by
  have start := fits_toInt r.start
  have stop := fits_toInt r.stop
  unfold Fits at start stop
  exact lengthWide?_eq ⟨by omega, by omega⟩ ⟨by omega, by omega⟩ (fits_toInt r.step)

theorem sliceWide?_eq (r : Range) (s : Slice) : r.sliceWide? s = some (r.slice? s) := by
  have word := fits_toInt r.start
  have step := sliceStep_mem r s
  have start := start_mul_step r s
  have stop := count_mul_step r s
  unfold sliceStep at step stop
  unfold Fits at word
  unfold sliceWide?
  rw [resolveWide?_eq r.count_lt, Option.bind_eq_bind, Option.bind_some,
    wide?_bind ⟨by omega, by omega⟩, wide?_bind ⟨by omega, by omega⟩,
    wide?_bind ⟨by omega, by omega⟩, wide?_bind ⟨by omega, by omega⟩,
    wide?_bind ⟨by omega, by omega⟩]
  rfl

end Range

end ObjectModel
