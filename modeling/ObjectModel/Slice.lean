import ObjectModel.Range

/-!
# Slices

A slice with optional integer bounds selects an arithmetic progression of
positions from a sequence of known length.
-/

namespace ObjectModel

/-- A bound counted from the end when negative, moved into `0 … length`. -/
def clampBound (length : Nat) (i : Int) : Nat :=
  if i < 0 then (i + length).toNat else min i.toNat length

theorem clampBound_le (length : Nat) (i : Int) : clampBound length i ≤ length := by
  rw [clampBound]
  split <;> omega

/-- `start:stop:step` with a step that is not zero. -/
structure Slice where
  start : Option Int64
  stop : Option Int64
  step : Int64
  step_ne : step ≠ 0

namespace Slice

/-- A slice resolved against a length. -/
structure Selection where
  start : Int
  stop : Int
  step : Int
  count : Nat
  deriving DecidableEq, Repr

def Selection.positions (s : Selection) : List Nat :=
  (List.range s.count).map fun (k : Nat) => (s.start + k * s.step).toNat

def Selection.pick {α : Type} (s : Selection) (xs : Array α) : List α :=
  s.positions.filterMap (xs[·]?)

/-- A bound, counted from the end when negative, clamped from one side. -/
def clamp (length lower upper : Int) (default : Int) : Option Int64 → Int
  | none => default
  | some i => if i.toInt < 0 then max (i.toInt + length) lower else min i.toInt upper

/-- A missing bound stands for the end of the sequence in its direction. -/
def resolve (s : Slice) (length : Nat) : Selection :=
  let step := s.step.toInt
  let (lower, upper) : Int × Int := if step < 0 then (-1, length - 1) else (0, length)
  let start := clamp length lower upper (if step < 0 then upper else lower) s.start
  let stop := clamp length lower upper (if step < 0 then lower else upper) s.stop
  ⟨start, stop, step, Range.lengthOf start stop step⟩

def select {α : Type} (s : Slice) (xs : List α) : List α :=
  (s.resolve xs.length).pick xs.toArray

end Slice

/-- The range of the selected elements; none when one of its bounds does not
fit in a word. -/
def Range.slice? (r : Range) (s : Slice) : Option Range := do
  let sel := s.resolve r.count
  let step := r.step.toInt * sel.step
  let start := r.start.toInt + sel.start * r.step.toInt
  let stop := start + sel.count * step
  Range.make? (← Checked.narrow? start) (← Checked.narrow? stop) (← Checked.narrow? step)

end ObjectModel
