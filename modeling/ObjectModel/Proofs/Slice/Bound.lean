import ObjectModel.Proofs.Slice.Subscript

/-!
# Indices, and slices with one bound or none

An index names a place from the start, or from the end when it is negative. What
is before a bound and what comes from it on are the two parts of a sequence that
is split there, and all places from the last to the first turn it around.

Main statements: `pick_eq_ok`, `select_before`, `select_onward` and
`select_turned`.
-/

namespace ObjectModel

namespace Subscript

variable {i : Int} {length : Nat}

/-- The place that an index names, if there is one. -/
def placeOf (i : Int) (length : Nat) : Int := if i < 0 then i + length else i

/-- The index names a place of the sequence. -/
def InRange (i : Int) (length : Nat) : Prop := -length ≤ i ∧ i < length

theorem inRange_iff : InRange i length ↔ 0 ≤ placeOf i length ∧ placeOf i length < length := by
  unfold InRange placeOf
  split <;> omega

theorem InRange.exists_place (h : InRange i length) :
    ∃ p : Nat, placeOf i length = p ∧ p < length := by
  obtain ⟨low, high⟩ := inRange_iff.1 h
  have named := Int.toNat_of_nonneg low
  exact ⟨(placeOf i length).toNat, named.symm, by omega⟩

theorem position_eq_ok {p : Nat} (named : placeOf i length = p) (hp : p < length)
    (what : String) : position what i length = .ok p := by
  have inside : 0 ≤ placeOf i length ∧ placeOf i length < length := by omega
  refine (if_pos inside).trans (congrArg Except.ok ?_)
  exact (congrArg Int.toNat named).trans (Int.toNat_natCast p)

theorem position_eq_error (what : String) (h : ¬ InRange i length) :
    position what i length = .error (.outOfRange what) := if_neg (mt inRange_iff.2 h)

theorem pick_eq_ok {α : Type} {xs : List α} {p : Nat} {x : α} (named : placeOf i xs.length = p)
    (hx : xs[p]? = some x) (what : String) : pick what xs i = .ok x := by
  obtain ⟨hp, -⟩ := List.getElem?_eq_some_iff.1 hx
  simp only [pick, position_eq_ok named hp, bind, Except.bind, hx]
  rfl

theorem pick_eq_error {α : Type} {xs : List α} (h : ¬ InRange i xs.length) (what : String) :
    pick what xs i = .error (.outOfRange what) := by
  rw [pick, position_eq_error what h]
  rfl

end Subscript

theorem clampBound_natCast {length p : Nat} (hp : p ≤ length) : clampBound length p = p := by
  rw [clampBound]
  split <;> omega

namespace Slice

theorem one_ne : (1 : Int64) ≠ 0 := Int64.zero_ne_one.symm

/-- `[:i]` -/
def before (i : Int64) : Slice := ⟨none, some i, 1, one_ne⟩

/-- `[i:]` -/
def onward (i : Int64) : Slice := ⟨some i, none, 1, one_ne⟩

/-- `[::-1]` -/
def turned : Slice := ⟨none, none, -1, by decide⟩

variable {α : Type}

theorem length_select (s : Slice) (xs : List α) :
    (s.select xs).length = (s.resolve xs.length).count := by
  have same := congrArg List.length (map_select s xs)
  simpa [Selection.positions] using same

theorem getElem?_select {s : Slice} {xs : List α} {k : Nat}
    (h : k < (s.resolve xs.length).count) : (s.select xs)[k]? =
      xs[((s.resolve xs.length).start + k * (s.resolve xs.length).step).toNat]? := by
  have at_k := congrArg (·[k]?) (map_select s xs)
  simp only [Selection.positions, List.getElem?_map, List.getElem?_range h, Option.map_some] at at_k
  have inside : k < (s.select xs).length := by rwa [length_select]
  rw [List.getElem?_eq_getElem inside] at at_k ⊢
  exact Option.some.inj at_k

/-- What is selected is known by its length and by what is at the selected places. -/
theorem select_eq {s : Slice} {xs ys : List α} {start stop step : Int}
    (resolved : s.resolve xs.length = ⟨start, stop, step, ys.length⟩)
    (items : ∀ k < ys.length, ys[k]? = xs[(start + k * step).toNat]?) : s.select xs = ys := by
  have length : (s.select xs).length = ys.length := by rw [length_select, resolved]
  refine List.ext_getElem? fun k => ?_
  by_cases hk : k < ys.length
  · rw [getElem?_select (by rwa [resolved]), items k hk, resolved]
  · rw [List.getElem?_eq_none (by omega), List.getElem?_eq_none (by omega)]

theorem place_eq {s : Slice} (hs : s.step = 1) (length : Nat) (i : Int64) :
    s.place length i = clampBound length i.toInt := by
  have one : (0 : Int) < (1 : Int64).toInt := by decide
  unfold place lowest highest clampBound
  rw [hs, if_pos one, if_pos one]
  split <;> omega

theorem resolve_before (i : Int64) (length : Nat) : (before i).resolve length =
    ⟨0, clampBound length i.toInt, 1, clampBound length i.toInt⟩ := by
  have count := Range.lengthOf_add_mul 0 (show (1 : Int) ≠ 0 by decide) (clampBound length i.toInt)
  rw [Int.zero_add, Int.mul_one] at count
  rw [resolve_eq]
  simp only [past, before, place_eq]
  exact congrArg _ count

theorem resolve_onward (i : Int64) (length : Nat) : (onward i).resolve length =
    ⟨clampBound length i.toInt, length, 1, length - clampBound length i.toInt⟩ := by
  have le := clampBound_le length i.toInt
  have count := Range.lengthOf_add_mul (clampBound length i.toInt) (show (1 : Int) ≠ 0 by decide)
    (length - clampBound length i.toInt)
  rw [show (clampBound length i.toInt : Int) + (length - clampBound length i.toInt : Nat) * 1 =
    length by omega] at count
  rw [resolve_eq]
  simp only [first, onward, place_eq]
  exact congrArg _ count

theorem resolve_turned (length : Nat) :
    turned.resolve length = ⟨length - 1, -1, -1, length⟩ := by
  have count := Range.lengthOf_add_mul (length - 1) (show (-1 : Int) ≠ 0 by decide) length
  rw [show (length : Int) - 1 + length * -1 = -1 by omega] at count
  rw [resolve_eq]
  exact congrArg _ count

theorem select_before (i : Int64) (xs : List α) :
    (before i).select xs = xs.take (clampBound xs.length i.toInt) := by
  have le := clampBound_le xs.length i.toInt
  have length : (xs.take (clampBound xs.length i.toInt)).length = clampBound xs.length i.toInt :=
    List.length_take_of_le le
  refine select_eq (length ▸ resolve_before i xs.length) fun k hk => ?_
  rw [List.getElem?_take_of_lt (length ▸ hk)]
  congr 1
  omega

theorem select_onward (i : Int64) (xs : List α) :
    (onward i).select xs = xs.drop (clampBound xs.length i.toInt) := by
  refine select_eq (List.length_drop ▸ resolve_onward i xs.length) fun k _ => ?_
  rw [List.getElem?_drop]
  congr 1
  omega

theorem select_turned (xs : List α) : turned.select xs = xs.reverse := by
  have resolved : turned.resolve xs.length = ⟨xs.length - 1, -1, -1, xs.reverse.length⟩ := by
    rw [List.length_reverse, resolve_turned]
  refine select_eq resolved fun k hk => ?_
  rw [List.length_reverse] at hk
  rw [List.getElem?_reverse hk]
  congr 1
  omega

end Slice

-- ---------------------------------------------------------------------------
-- Subscripts of values
-- ---------------------------------------------------------------------------

namespace Action

/-- `v[:i]` -/
def before (v : Value) (i : Int64) : Action Value := do
  getItem v (← newSlice .none (← newInt i) .none)

/-- `v[i:]` -/
def onward (v : Value) (i : Int64) : Action Value := do
  getItem v (← newSlice (← newInt i) .none .none)

/-- `v[::-1]` -/
def turned (v : Value) : Action Value := do
  getItem v (← newSlice .none .none (← newInt (-1)))

theorem runOn_newSlice (start stop step : Value) (s : Session) :
    (newSlice start stop step).runOn s = (.ok (.slice s.heap.fresh start stop step), s.tick) := rfl

/-- The action ends with an `IndexError` and changes nothing but the next tag. -/
def RaisesIndex {α : Type} (a : Action α) (s : Session) : Prop :=
  ∃ c fresh, a.runOn s = (.error (.cause c), s.reach fresh) ∧ c.kind = .index

end Action

end ObjectModel
