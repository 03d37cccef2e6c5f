import ObjectModel.Checked

/-!
# Ranges

Arithmetic progressions of 64-bit integers. Nothing is materialized; lengths
and positions are exact integers, since a range may have more elements than a
word can count.
-/

namespace ObjectModel

/-- `start, start + step, …` strictly before `stop` in the direction of `step`. -/
structure Range where
  start : Int64
  stop : Int64
  step : Int64
  step_ne : step ≠ 0
  deriving DecidableEq

namespace Range

def make? (start stop step : Int64) : Option Range :=
  if h : step = 0 then none else some ⟨start, stop, step, h⟩

/-- Number of steps of size `step` strictly before `stop`. -/
def lengthOf (start stop step : Int) : Nat :=
  if 0 < step ∧ start < stop then ((stop - start - 1) / step + 1).toNat
  else if step < 0 ∧ stop < start then ((start - stop - 1) / (-step) + 1).toNat
  else 0

def count (r : Range) : Nat := lengthOf r.start.toInt r.stop.toInt r.step.toInt

def nth (r : Range) (i : Nat) : Int64 := Int64.ofInt (r.start.toInt + i * r.step.toInt)

def indexOf? (r : Range) (v : Int64) : Option Nat :=
  let offset := v.toInt - r.start.toInt
  let step := r.step.toInt
  if offset.tmod step ≠ 0 then none
  else
    let i := offset.tdiv step
    if 0 ≤ i ∧ i < r.count then some i.toNat else none

/-- Ranges are compared as the sequences they denote. -/
def same (r s : Range) : Bool :=
  r.count == s.count &&
    (r.count == 0 || (r.start == s.start && (r.count == 1 || r.step == s.step)))

theorem same_iff {r s : Range} :
    r.same s = true ↔ r.count = s.count ∧
      (r.count = 0 ∨ r.start = s.start ∧ (r.count = 1 ∨ r.step = s.step)) := by
  simp [same]

theorem same_symm {r s : Range} (h : r.same s = true) : s.same r = true := by
  obtain ⟨hc, h⟩ := same_iff.1 h
  rw [hc] at h
  exact same_iff.2 ⟨hc.symm, h.imp_right fun ⟨hs, hp⟩ => ⟨hs.symm, hp.imp_right Eq.symm⟩⟩

theorem same_trans {r s t : Range} (h : r.same s = true) (h' : s.same t = true) :
    r.same t = true := by
  obtain ⟨hc, h⟩ := same_iff.1 h
  obtain ⟨hc', h'⟩ := same_iff.1 h'
  rw [← hc] at h'
  refine same_iff.2 ⟨hc.trans hc', ?_⟩
  rcases h with h | ⟨hs, hp⟩
  · exact .inl h
  · rcases h' with h' | ⟨hs', hp'⟩
    · exact .inl h'
    · refine .inr ⟨hs.trans hs', ?_⟩
      rcases hp with hp | hp
      · exact .inl hp
      · exact hp'.imp_right hp.trans

/-- Three words that determine the denoted sequence up to `same`. -/
def hashParts (r : Range) : List Int64 :=
  match r.count with
  | 0 => [0, 0, 0]
  | 1 => [1, r.start, 0]
  | n => [Int64.ofInt n, r.start, r.step]

theorem hashParts_of_same {r s : Range} (h : r.same s = true) : r.hashParts = s.hashParts := by
  obtain ⟨hc, h⟩ := same_iff.1 h
  unfold hashParts
  rw [← hc]
  split
  · rfl
  · next h1 =>
    rw [h1] at h
    rcases h with h | ⟨hs, -⟩
    · cases h
    · rw [hs]
  · next h0 h1 =>
    rcases h with h | ⟨hs, h | hp⟩
    · exact absurd h h0
    · exact absurd h h1
    · rw [hs, hp]

end Range

end ObjectModel
