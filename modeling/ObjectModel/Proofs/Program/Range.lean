import ObjectModel.Proofs.Program.Basic
import ObjectModel.Proofs.Range.Operations

/-!
# Ranges in programs

In a program, a range is the list of integers that it denotes: it has their
number, yields them forwards and backwards, gives them for indices, contains what
equals one of them, and equals the ranges that denote the same list.

Main statement: `Reachable.range_denotes`.
-/

namespace ObjectModel

open ObjectModel.Action Checked

namespace Program

variable {p : Program} {w : World}

/-- An integer made anew equals the integers and booleans of its value, and
nothing else. -/
theorem equals_int_iff {v : Value} {tag : Tag} {m : Int64} (hv : w.Has v) (ht : w.fresh ≤ tag)
    (h : Heap) : h.equals (.int tag m) v = true ↔ v.asInt? = some m := by
  have apart : (Value.int tag m).is v = false := by
    rw [Bool.eq_false_iff]
    intro same
    have made : (Value.int tag m).identity = .tagged tag :=
      if_neg (Nat.ne_of_gt (w.fresh_pos.trans_le ht))
    exact Nat.not_lt.2 ht (w.tag_lt hv ((Value.is_iff.1 same).symm.trans made))
  simp only [Heap.equals, Heap.depth, Heap.equalsAt]
  cases v with
  | int tag' n =>
    simp only [Value.equalsWith, Value.asInt?, beq_iff_eq, Option.some.injEq]
    exact eq_comm
  | bool b =>
    simp only [Value.equalsWith, apart, Value.leafEquals, Value.asInt?,
      Bool.false_or, beq_iff_eq, Option.some.injEq]
    exact eq_comm
  | _ => simp [Value.equalsWith, apart, Value.leafEquals, Value.asInt?]

theorem equals_range_iff {t t' : Tag} {r r' : Range} (hr : w.Has (Value.range t r))
    (hr' : w.Has (Value.range t' r')) (h : Heap) :
    h.equals (.range t r) (.range t' r') = true ↔ r.elements = r'.elements := by
  rw [← Range.same_iff_elements]
  simp only [Heap.equals, Heap.depth, Heap.equalsAt, Value.equalsWith, Value.leafEquals,
    Bool.or_eq_true, or_iff_right_iff_imp]
  intro same
  cases w.unique hr hr' (Value.is_iff.1 same)
  exact Range.same_iff_elements.2 rfl

/-- A range is the list that it denotes. Elements are compared as integers made
at this moment or later. -/
theorem Reachable.range_denotes (reachable : p.Reachable) (r : Range) (tag : Tag) :
    let l := progression r.start.toInt r.stop.toInt r.step.toInt
    r.count = l.length ∧
    (∀ i < r.count, (r.nth i).toInt = r.start.toInt + i * r.step.toInt ∧
      l[i]? = some (r.nth i).toInt) ∧
    (∃ ref s', (iter (.range tag r)).runOn p.session = (.ok (.cursor .range ref), s') ∧
      Yields Value.IsInt .range ref l s') ∧
    (∀ key i, key.asInt? = some i →
      let j : Int := if i.toInt < 0 then i.toInt + l.length else i.toInt
      (0 ≤ j ∧ j < l.length → ∃ n v s', l[j.toNat]? = some n ∧
        (getItem (.range tag r) key).runOn p.session = (.ok v, s') ∧ v.IsInt n) ∧
      (¬ (0 ≤ j ∧ j < l.length) → (getItem (.range tag r) key).runOn p.session =
        (.error (.cause (.outOfRange "range object")), p.session) ∧
        (Cause.outOfRange "range object").kind = .index)) ∧
    (∀ v new, p.Holds v → p.heap.fresh ≤ new → ∃ b,
      (contains (.range tag r) v).runOn p.session = (.ok b, p.session) ∧
      (b = true ↔ ∃ m : Int64, m.toInt ∈ l ∧ p.heap.equals (.int new m) v = true)) ∧
    ((length (.range tag r)).runOn p.session =
      if Fits l.length then (.ok (Int64.ofInt l.length), p.session)
      else (.error (.cause .rangeTooLong), p.session)) ∧
    ((Fits l.length → ∃ ref s',
        (call (.type (.cursor .reversed)) (.single (.range tag r))).runOn p.session =
          (.ok (.cursor .reversed ref), s') ∧ Yields Value.IsInt .reversed ref l.reverse s') ∧
      (¬ Fits l.length →
        (call (.type (.cursor .reversed)) (.single (.range tag r))).runOn p.session =
          (.error (.cause .rangeTooLong), p.session) ∧ Cause.rangeTooLong.kind = .overflow)) ∧
    ∀ (tag' : Tag) (r' : Range), p.Holds (.range tag r) → p.Holds (.range tag' r') →
      (p.heap.equals (.range tag r) (.range tag' r') = true ↔
        l = progression r'.start.toInt r'.stop.toInt r'.step.toInt) := by
  intro l
  obtain ⟨w, modeled⟩ := reachable.modeled
  refine ⟨r.length_elements.symm, ?_, ?_, ?_, ?_, Range.runOn_length tag r p.session, ?_, ?_⟩
  · intro i hi
    exact ⟨Range.toInt_nth hi, Range.getElem?_elements hi⟩
  · obtain ⟨ref, s', run, -, yields⟩ := Range.runOn_iter tag r p.session
    exact ⟨ref, s', run, yields⟩
  · intro key i hk
    obtain ⟨found, missing⟩ := Range.runOn_getItem hk tag r p.session
    exact ⟨found, fun out => ⟨missing out, rfl⟩⟩
  · intro v new hv hnew
    obtain ⟨b, run, answer⟩ := Range.runOn_contains tag r v p.session
    have fresh : w.fresh ≤ new := modeled.models.fresh ▸ hnew
    refine ⟨b, run, answer.trans (exists_congr fun m => ?_)⟩
    rw [equals_int_iff (modeled.has hv) fresh]
    exact and_comm
  · obtain ⟨backward, refused⟩ := Range.runOn_reversed tag r p.session
    exact ⟨backward, fun long => ⟨refused long, rfl⟩⟩
  · intro tag' r' hr hr'
    exact equals_range_iff (modeled.has hr) (modeled.has hr') p.heap

/-- `range(0, 5, 2)`. -/
def evens : Range := ⟨0, 5, 2, by decide⟩

/-- `range(0, 6, 2)`. -/
def evens' : Range := ⟨0, 6, 2, by decide⟩

/-- A program that makes the two. -/
def ranges : Program := (start [] false).run [.range 0 5 2, .range 0 6 2]

theorem values_ranges : ranges.values = [.range 2 evens', .range 1 evens] := rfl

theorem reachable_ranges : ranges.Reachable := (Reachable.start [] false).run (by decide)

theorem range_denotes_of_evens :
    (∃ v s', (getItem (.range 1 evens) (.int 0 (-1))).runOn ranges.session = (.ok v, s') ∧
      v.IsInt 4) ∧
    (getItem (.range 1 evens) (.int 0 3)).runOn ranges.session =
      (.error (.cause (.outOfRange "range object")), ranges.session) ∧
    (∃ b, (contains (.range 1 evens) (.bool true)).runOn ranges.session = (.ok b, ranges.session) ∧
      (b = true ↔ ∃ m : Int64, m.toInt ∈ progression 0 5 2 ∧
        ranges.heap.equals (.int 3 m) (.bool true) = true)) ∧
    (∃ ref s', (call (.type (.cursor .reversed)) (.single (.range 1 evens))).runOn ranges.session =
      (.ok (.cursor .reversed ref), s') ∧
      Yields Value.IsInt .reversed ref (progression 0 5 2).reverse s') ∧
    progression 0 5 2 = progression 0 6 2 := by
  have holds : ranges.Holds (.range 1 evens) := .value (values_ranges ▸ by simp)
  have holds' : ranges.Holds (.range 2 evens') := .value (values_ranges ▸ by simp)
  obtain ⟨-, nth, -, item, member, -, backward, same⟩ := reachable_ranges.range_denotes evens 1
  have three : (progression evens.start.toInt evens.stop.toInt evens.step.toInt).length = 3 :=
    (length_progression ..).trans (by decide)
  rw [three] at item backward
  refine ⟨?_, ?_, member (.bool true) 3 (.shared rfl) (by decide), backward.1 (by decide),
    (same 2 evens' holds holds').1 rfl⟩
  · obtain ⟨n, v, s', last, run, int⟩ := (item (.int 0 (-1)) (-1) rfl).1 (by decide)
    rw [show ((if (-1 : Int64).toInt < 0 then (-1 : Int64).toInt + (3 : Nat) else
      (-1 : Int64).toInt) : Int).toNat = 2 by decide, (nth 2 (by decide)).2] at last
    have four : n = 4 := (Option.some.inj last).symm.trans (by decide)
    exact ⟨v, s', run, four ▸ int⟩
  · exact ((item (.int 0 3) 3 rfl).2 (by decide)).1

end Program

end ObjectModel
