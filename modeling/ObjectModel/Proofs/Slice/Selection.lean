import Mathlib.Algebra.Group.Int.Defs
import Mathlib.Algebra.Group.Nat.Defs
import ObjectModel.Proofs.Progression
import ObjectModel.Slice

/-!
# What a slice selects

A bound of a slice is counted from the end when it is negative, and clamped to
the sequence; a missing one is the end of the sequence in its direction. The
selected positions are the progression from the one bound to the other.

Main statement: `Slice.selects`.
-/

namespace ObjectModel.Slice

open Checked

/-- The least place of a bound. Backwards, the place before the first element is
one. -/
def lowest (s : Slice) : Int := if 0 < s.step.toInt then 0 else -1

def highest (s : Slice) (length : Nat) : Int := if 0 < s.step.toInt then length else length - 1

/-- The place of a bound that is given. -/
def place (s : Slice) (length : Nat) (i : Int64) : Int :=
  max s.lowest (min (s.highest length) (if i.toInt < 0 then i.toInt + length else i.toInt))

def first (s : Slice) (length : Nat) : Int :=
  match s.start with
  | some i => s.place length i
  | none => if 0 < s.step.toInt then 0 else length - 1

def past (s : Slice) (length : Nat) : Int :=
  match s.stop with
  | some i => s.place length i
  | none => if 0 < s.step.toInt then length else -1

/-- A selection in words, as it is kept. -/
structure Words where
  start : Int64
  stop : Int64
  step : Int64
  count : UInt64

def Selection.words (sel : Selection) : Words :=
  ⟨Int64.ofInt sel.start, Int64.ofInt sel.stop, Int64.ofInt sel.step, UInt64.ofNat sel.count⟩

/-- The positions as words, each cut from the exact sum. -/
def Words.positions (w : Words) : List UInt64 :=
  (List.range w.count.toNat).map fun (k : Nat) => UInt64.ofInt (w.start.toInt + k * w.step.toInt)

structure Selects (s : Slice) (length : Nat) (sel : Selection) : Prop where
  start : sel.start = s.first length
  stop : sel.stop = s.past length
  step : sel.step = s.step.toInt
  positions : sel.positions.map Int.ofNat =
    progression (s.first length) (s.past length) s.step.toInt
  count : sel.positions.length = sel.count
  inside : ∀ p ∈ sel.positions, p < length
  strict : sel.positions.Pairwise fun p q => if 0 < s.step.toInt then p < q else q < p
  /-- no word is cut when the length is one -/
  exact : Fits length → sel.words.start.toInt = sel.start ∧ sel.words.stop.toInt = sel.stop ∧
    sel.words.step.toInt = sel.step ∧ sel.words.count.toNat = sel.count
  /-- the positions are exact even when the length is unsigned -/
  wordPositions : length < 2 ^ 64 → sel.words.positions.map UInt64.toNat = sel.positions

variable {length : Nat}

theorem step_toInt_ne (s : Slice) : s.step.toInt ≠ 0 := fun h =>
  s.step_ne (Int64.toInt_inj.1 h)

theorem lowest_le_first (s : Slice) (length : Nat) :
    s.lowest ≤ s.first length ∧ s.first length ≤ s.highest length := by
  unfold first place lowest highest
  split <;> split <;> omega

theorem lowest_le_past (s : Slice) (length : Nat) :
    s.lowest ≤ s.past length ∧ s.past length ≤ s.highest length := by
  unfold past place lowest highest
  split <;> split <;> omega

theorem clamp_eq (s : Slice) (length : Nat) (default : Int) (bound : Option Int64) :
    clamp length s.lowest (s.highest length) default bound =
      match bound with
      | some i => s.place length i
      | none => default := by
  cases bound with
  | none => rfl
  | some i =>
    -- Clamping from one side is enough: a bound counted from the end lies below the last place,
    -- and one counted from the start is not negative.
    unfold clamp place lowest highest
    simp only []
    split <;> split <;> omega

theorem resolve_eq (s : Slice) (length : Nat) : s.resolve length =
    ⟨s.first length, s.past length, s.step.toInt,
      Range.lengthOf (s.first length) (s.past length) s.step.toInt⟩ := by
  have clamped := s.clamp_eq length
  unfold lowest highest at clamped
  unfold resolve first past
  rcases Int.lt_or_gt_of_ne s.step_toInt_ne with hs | hs
  · have hs' : ¬ 0 < s.step.toInt := by omega
    simp only [hs, hs', if_true, if_false] at clamped ⊢
    rw [clamped, clamped]
  · have hs' : ¬ s.step.toInt < 0 := by omega
    simp only [hs, hs', if_true, if_false] at clamped ⊢
    rw [clamped, clamped]

theorem count_le (s : Slice) (length : Nat) : (s.resolve length).count ≤ length := by
  have starts := s.lowest_le_first length
  have stops := s.lowest_le_past length
  have := Range.lengthOf_le (s.first length) (s.past length) s.step.toInt
  rw [resolve_eq]
  simp only [lowest, highest] at starts stops ⊢
  omega

theorem inside_of_mem {x : Int} {s : Slice}
    (h : x ∈ progression (s.first length) (s.past length) s.step.toInt) :
    0 ≤ x ∧ x < length := by
  have starts := s.lowest_le_first length
  have stops := s.lowest_le_past length
  have between := between_of_mem_progression h
  simp only [lowest, highest] at starts stops
  omega

theorem inside_of_lt {s : Slice} {k : Nat} (h : k < (s.resolve length).count) :
    0 ≤ (s.resolve length).start + k * (s.resolve length).step ∧
      (s.resolve length).start + k * (s.resolve length).step < length := by
  rw [resolve_eq] at h ⊢
  exact inside_of_mem (mem_progression.2 ⟨k, h, rfl⟩)

theorem positions_eq (s : Slice) (length : Nat) : (s.resolve length).positions =
    (progression (s.first length) (s.past length) s.step.toInt).map Int.toNat := by
  rw [Selection.positions, resolve_eq, progression_eq_map, List.map_map]
  rfl

theorem map_positions (s : Slice) (length : Nat) : (s.resolve length).positions.map Int.ofNat =
    progression (s.first length) (s.past length) s.step.toInt := by
  rw [positions_eq, List.map_map]
  have kept (x : Int) (hx : x ∈ progression (s.first length) (s.past length) s.step.toInt) :
      Int.ofNat x.toNat = x := Int.toNat_of_nonneg (inside_of_mem hx).1
  exact (List.map_congr_left kept).trans (List.map_id' _)

theorem lt_of_mem_positions {s : Slice} {p : Nat} (h : p ∈ (s.resolve length).positions) :
    p < length := by
  have : Int.ofNat p ∈ progression (s.first length) (s.past length) s.step.toInt :=
    map_positions s length ▸ List.mem_map_of_mem h
  exact Int.ofNat_lt.1 (inside_of_mem this).2

theorem pairwise_positions (s : Slice) (length : Nat) : (s.resolve length).positions.Pairwise
    fun p q => if 0 < s.step.toInt then p < q else q < p := by
  have ordered := pairwise_progression (s.first length) (s.past length) s.step.toInt
  rw [← map_positions, List.pairwise_map] at ordered
  refine ordered.imp fun {p q} h => ?_
  split
  · next hs => exact Int.ofNat_lt.1 ((if_pos hs).mp h)
  · next hs => exact Int.ofNat_lt.1 ((if_neg hs).mp h)

theorem words_exact (s : Slice) (h : Fits length) :
    let sel := s.resolve length
    sel.words.start.toInt = sel.start ∧ sel.words.stop.toInt = sel.stop ∧
      sel.words.step.toInt = sel.step ∧ sel.words.count.toNat = sel.count := by
  have starts := s.lowest_le_first length
  have stops := s.lowest_le_past length
  have count := s.count_le length
  unfold Fits at h
  simp only [Selection.words, lowest, highest] at starts stops ⊢
  rw [resolve_eq] at count ⊢
  refine ⟨?_, ?_, ?_, ?_⟩
  · exact Int64.toInt_ofInt_of_le (by simp only []; omega) (by simp only []; omega)
  · exact Int64.toInt_ofInt_of_le (by simp only []; omega) (by simp only []; omega)
  · exact congrArg _ (Int64.ofInt_toInt _)
  · exact UInt64.toNat_ofNat_of_lt' (Nat.lt_of_le_of_lt count (by simp only [UInt64.size]; omega))

/-- Cutting to a word keeps what is not negative and below `2 ^ 64`, also when a
summand was cut before. -/
theorem toNat_ofInt_bmod_add {x y : Int} (h : 0 ≤ x + y) (h' : x + y < 2 ^ 64) :
    (UInt64.ofInt ((Int64.ofInt x).toInt + y)).toNat = (x + y).toNat := by
  have word : x.bmod Int64.size % 2 ^ 64 = x % 2 ^ 64 := Int.bmod_emod
  have cut : ((Int64.ofInt x).toInt + y) % 2 ^ 64 = x + y := by
    rw [Int64.toInt_ofInt, ← Int.emod_add_emod, word, Int.emod_add_emod, Int.emod_eq_of_lt h h']
  rw [UInt64.ofInt, cut, UInt64.toNat_ofNat_of_lt']
  simp only [UInt64.size]
  omega

theorem map_words_positions (s : Slice) (h : length < 2 ^ 64) :
    (s.resolve length).words.positions.map UInt64.toNat = (s.resolve length).positions := by
  have count : (s.resolve length).words.count.toNat = (s.resolve length).count :=
    UInt64.toNat_ofNat_of_lt' (Nat.lt_of_le_of_lt (s.count_le length) h)
  have step : (s.resolve length).words.step.toInt = (s.resolve length).step := by
    rw [resolve_eq]
    exact congrArg _ (Int64.ofInt_toInt _)
  rw [Words.positions, count, step, List.map_map]
  refine List.map_congr_left fun k hk => ?_
  obtain ⟨low, high⟩ := inside_of_lt (List.mem_range.1 hk)
  exact toNat_ofInt_bmod_add low (by omega)

theorem selects (s : Slice) (length : Nat) : s.Selects length (s.resolve length) where
  start := congrArg Selection.start (s.resolve_eq length)
  stop := congrArg Selection.stop (s.resolve_eq length)
  step := congrArg Selection.step (s.resolve_eq length)
  positions := s.map_positions length
  count := by rw [Selection.positions, List.length_map, List.length_range]
  inside _ := lt_of_mem_positions
  strict := s.pairwise_positions length
  exact := s.words_exact
  wordPositions := s.map_words_positions

end ObjectModel.Slice
