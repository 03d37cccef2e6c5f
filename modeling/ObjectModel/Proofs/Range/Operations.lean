import ObjectModel.Call.Basic
import ObjectModel.Proofs.Iteration
import ObjectModel.Proofs.Range.Denotation

/-!
# Ranges at work

Iterating over a range, forwards and backwards, gives the integers that it
denotes; indices, membership and the length are those of that list.

Main statements: `Range.runOn_iter`, `Range.runOn_reversed` and
`Range.runOn_getItem`.
-/

namespace ObjectModel

open ObjectModel.Action

/-- The value is an integer object. -/
def Value.IsInt (v : Value) (n : Int) : Prop := ∃ tag m, v = .int tag m ∧ m.toInt = n

namespace Range

variable {r : Range} {form : CursorKind} {ref : Ref .cursor} {s : Session} {i : Nat}

theorem nth_zero (r : Range) : r.nth 0 = r.start := by
  rw [nth, Int.natCast_zero, Int.zero_mul, Int.add_zero, Int64.ofInt_toInt]

/-- Stepping wraps as the word of the next element does, also past the end. -/
theorem nth_add_step (r : Range) (i : Nat) : r.nth i + r.step = r.nth (i + 1) := by
  have next : r.start.toInt + ((i + 1 : Nat) : Int) * r.step.toInt =
      r.start.toInt + i * r.step.toInt + r.step.toInt := by
    rw [Int.natCast_add, Int.add_mul]
    omega
  rw [nth, nth, next, Int64.ofInt_add _ r.step.toInt, Int64.ofInt_toInt]

-- ---------------------------------------------------------------------------
-- Iterating
-- ---------------------------------------------------------------------------

theorem runOn_emit (ref : Ref .cursor) (c : Cursor) (n : Int64) (s : Session) :
    ∃ v s', (do writeCursor ref c; return some (← newInt n) : Action (Option Value)).runOn s =
      (.ok (some v), s') ∧ v.IsInt n.toInt ∧ s'.heap.cursor ref = c := by
  let placed : Session := { s with heap := s.heap.putCursor ref c }
  have written : (writeCursor ref c).runOn s = (.ok (), placed) := rfl
  obtain ⟨tag, fresh, made⟩ := runOn_newInt n placed
  refine ⟨.int tag n, placed.reach fresh, ?_, ⟨_, _, rfl, rfl⟩, Heap.cursor_putCursor ..⟩
  rw [runOn_bind_of_ok written, runOn_bind_of_ok made]
  rfl

theorem next_range {c step : Int64} {n : Nat} (h : s.heap.cursor ref = .range c step (n + 1)) :
    ∃ v s', (next (.cursor form ref)).runOn s = (.ok (some v), s') ∧ v.IsInt c.toInt ∧
      s'.heap.cursor ref = .range (c + step) step n := by
  obtain ⟨v, s', run, int, after⟩ := runOn_emit ref (.range (c + step) step n) c s
  refine ⟨v, s', ?_, int, after⟩
  rw [runOn_next, advanceCursor, runOn_bind_of_ok (runOn_readCursor ..), h]
  exact run

/-- A cursor that has the element at a position yields it and those after it. -/
theorem yields_drop (h : s.heap.cursor ref = .range (r.nth i) r.step (r.count - i)) :
    Yields Value.IsInt form ref (r.elements.drop i) s := by
  generalize hn : r.count - i = n at h
  induction n generalizing i s with
  | zero =>
    rw [List.drop_eq_nil_of_le (by rw [length_elements]; omega), Yields, runOn_next, advanceCursor,
      runOn_bind_of_ok (runOn_readCursor ..), h]
    rfl
  | succ n ih =>
    have hi : i < r.count := by omega
    obtain ⟨v, s', run, hv, after⟩ := next_range h
    rw [List.drop_eq_getElem?_toList_append, getElem?_elements hi]
    refine ⟨v, s', run, hv, fun s'' hs => ih (by omega) ?_⟩
    rw [hs, after, nth_add_step]

theorem next_backwardRange {n : Nat} (h : s.heap.cursor ref = .backwardRange r (n + 1)) :
    ∃ v s', (next (.cursor form ref)).runOn s = (.ok (some v), s') ∧ v.IsInt (r.nth n).toInt ∧
      s'.heap.cursor ref = .backwardRange r n := by
  obtain ⟨v, s', run, int, after⟩ := runOn_emit ref (.backwardRange r n) (r.nth n) s
  refine ⟨v, s', ?_, int, after⟩
  rw [runOn_next, advanceCursor, runOn_bind_of_ok (runOn_readCursor ..), h]
  exact run

/-- A backward cursor yields the elements below its bound, last first. -/
theorem yields_backward {n : Nat} (hn : n ≤ r.count) (h : s.heap.cursor ref = .backwardRange r n) :
    Yields Value.IsInt form ref (r.elements.take n).reverse s := by
  induction n generalizing s with
  | zero =>
    rw [List.take_zero, List.reverse_nil, Yields, runOn_next, advanceCursor,
      runOn_bind_of_ok (runOn_readCursor ..), h]
    rfl
  | succ n ih =>
    obtain ⟨v, s', run, hv, after⟩ := next_backwardRange h
    rw [List.take_add_one, getElem?_elements hn, Option.toList_some, List.reverse_append]
    exact ⟨v, s', run, hv, fun s'' hs => ih (Nat.le_of_succ_le hn) (hs.trans after)⟩

/-- Iterating over a range yields what it denotes. -/
theorem runOn_iter (tag : Tag) (r : Range) (s : Session) :
    ∃ ref s', (iter (.range tag r)).runOn s = (.ok (.cursor .range ref), s') ∧
      s'.heap.cursor ref = .range r.start r.step r.count ∧
      Yields Value.IsInt .range ref r.elements s' := by
  obtain ⟨ref, s', run, made⟩ := runOn_newCursor .range (.range r.start r.step r.count) s
  refine ⟨ref, s', run, made, ?_⟩
  refine (List.drop_zero (l := r.elements)) ▸ yields_drop (i := 0) ?_
  rw [made, nth_zero, Nat.sub_zero]

theorem runOn_rangeItems (tag : Tag) (r : Range) (s : Session) :
    ∃ vs s', (items (.range tag r)).runOn s = (.ok vs, s') ∧
      List.Forall₂ Value.IsInt vs r.elements := by
  obtain ⟨ref, s', run, made, yields⟩ := runOn_iter tag r s
  refine runOn_items run yields ?_
  have remaining : s'.heap.remaining (s'.heap.cursors.size + 1) (.cursor .range ref) = r.count := by
    rw [Heap.remaining, made]
  rw [Heap.patience, remaining, length_elements, growthAllowance]
  omega

-- ---------------------------------------------------------------------------
-- Asking
-- ---------------------------------------------------------------------------

theorem runOn_rangeItem (r : Range) (i : Int) (s : Session) :
    let j := if i < 0 then i + r.count else i
    (0 ≤ j ∧ j < r.count → ∃ v s', (rangeItem r i).runOn s = (.ok v, s') ∧
      v.IsInt (r.nth j.toNat).toInt) ∧
    (¬ (0 ≤ j ∧ j < r.count) →
      (rangeItem r i).runOn s = (.error (.cause (.outOfRange "range object")), s)) := by
  intro j
  constructor
  · intro h
    have place : Subscript.position "range object" i r.count = .ok j.toNat := if_pos h
    obtain ⟨tag, fresh, made⟩ := runOn_newInt (r.nth j.toNat) s
    rw [rangeItem, runOn_bind_of_ok (runOn_lift_of_ok place s)]
    exact ⟨_, _, made, _, _, rfl, rfl⟩
  · intro h
    have place : Subscript.position "range object" i r.count =
        .error (.outOfRange "range object") := if_neg h
    rw [rangeItem, runOn_bind_of_error (runOn_lift_of_error place s)]

/-- An index counts from the end when it is negative. -/
theorem runOn_getItem {key : Value} {i : Int64} (hk : key.asInt? = some i) (tag : Tag) (r : Range)
    (s : Session) :
    let j := if i.toInt < 0 then i.toInt + r.elements.length else i.toInt
    (0 ≤ j ∧ j < r.elements.length → ∃ n v s', r.elements[j.toNat]? = some n ∧
      (getItem (.range tag r) key).runOn s = (.ok v, s') ∧ v.IsInt n) ∧
    (¬ (0 ≤ j ∧ j < r.elements.length) → (getItem (.range tag r) key).runOn s =
      (.error (.cause (.outOfRange "range object")), s)) := by
  have index : Subscript.ofValue "range" key = .ok (.index i.toInt) := by
    cases key with
    | slice => cases hk
    | _ => simp [Subscript.ofValue, hk]
  have item : (getItem (.range tag r) key).runOn s = (rangeItem r i.toInt).runOn s := by
    rw [getItem, runOn_bind_of_ok (runOn_lift_of_ok index s)]
  obtain ⟨found, missing⟩ := runOn_rangeItem r i.toInt s
  rw [length_elements, item]
  refine ⟨fun h => ?_, missing⟩
  obtain ⟨v, s', run, int⟩ := found h
  exact ⟨_, v, s', getElem?_elements (by omega), run, int⟩

theorem runOn_length (tag : Tag) (r : Range) (s : Session) : (length (.range tag r)).runOn s =
    if Checked.Fits r.elements.length then (.ok (Int64.ofInt r.elements.length), s)
    else (.error (.cause .rangeTooLong), s) := by
  rw [length, runOn_bind_of_ok (runOn_heap s), length_elements]
  simp only [Heap.length?, wordOf, Checked.narrow?]
  split <;> rfl

theorem runOn_contains (tag : Tag) (r : Range) (v : Value) (s : Session) :
    ∃ b, (contains (.range tag r) v).runOn s = (.ok b, s) ∧
      (b = true ↔ ∃ n, v.asInt? = some n ∧ n.toInt ∈ r.elements) := by
  refine ⟨_, rfl, ?_⟩
  cases v.asInt? with
  | none => simp
  | some n => simp [indexOf?_isSome]

/-- Walking backwards, which takes a length that is a word. -/
theorem runOn_reversed (tag : Tag) (r : Range) (s : Session) :
    (Checked.Fits r.elements.length →
      ∃ ref s', (Construct.reversed (.single (.range tag r))).runOn s =
        (.ok (.cursor .reversed ref), s') ∧
        Yields Value.IsInt .reversed ref r.elements.reverse s') ∧
    (¬ Checked.Fits r.elements.length → (Construct.reversed (.single (.range tag r))).runOn s =
      (.error (.cause .rangeTooLong), s)) := by
  have single : (liftM ((Arguments.single (.range tag r)).plain "reversed" 1 1) :
      Action Unit).runOn s = (.ok (), s) := rfl
  have len := runOn_length tag r s
  rw [Construct.reversed, runOn_bind_of_ok single]
  simp only [Arguments.single]
  constructor
  · intro h
    rw [if_pos h] at len
    have walk : (Construct.backward (.range tag r)).runOn s =
        (.ok (.backwardRange r r.count), s) := by
      rw [Construct.backward, runOn_bind_of_ok len]
      rfl
    obtain ⟨ref, s', run, made⟩ := runOn_newCursor .reversed (.backwardRange r r.count) s
    refine ⟨ref, s', ?_, ?_⟩
    · rw [runOn_bind_of_ok walk, run]
    · refine (List.take_length (l := r.elements)) ▸ ?_
      rw [length_elements]
      exact yields_backward (Nat.le_refl _) made
  · intro h
    rw [if_neg h] at len
    have refused : (Construct.backward (.range tag r)).runOn s =
        (.error (.cause .rangeTooLong), s) := by
      rw [Construct.backward, runOn_bind_of_error len]
    rw [runOn_bind_of_error refused]

end Range

end ObjectModel
