import ObjectModel.Proofs.Equality.Same

/-!
# Equality that can fail

`Value.tryEqualsWith` is equality as a procedure: what the heap is asked may
fail, and the failure ends the comparison. It agrees with `Value.equalsWith`
as long as nothing that it does ask fails.

Main statement: `tryEqualsWith_eq`. Which pairs a comparison descends to is
left to a relation that `Descends`.
-/

namespace ObjectModel.Value

/-- The pairs of `Meets`. -/
def meets : Value → Value → Bool
  | .bytes .., .bytearray _ | .bytearray _, .bytes .. | .bytearray _, .bytearray _ => true
  | .list _, .list _ | .dict _, .dict _ | .set _, .set _ | .view .., .view .. => true
  | _, _ => false

theorem meets_iff {a b : Value} : a.meets b = true ↔ Meets a b := by
  constructor
  · intro h
    unfold meets at h
    split at h <;> first | constructor | cases h
  · intro h
    cases h <;> rfl

mutual
/-- Identical values are equal; tuples and slices are compared part by part up
to the first difference; what meets is asked of the heap. -/
def tryEqualsWith (stored : Value → Value → Except Fault Bool) :
    Value → Value → Except Fault Bool
  | .int _ m, .int _ n => .ok (m == n)
  | .tuple tag xs, b =>
    if (Value.tuple tag xs).is b then .ok true
    else
      match b with
      | .tuple _ ys =>
        if xs.length = ys.length then tryAllEqualWith stored xs ys else .ok false
      | _ => .ok false
  | .slice tag x y z, b =>
    if (Value.slice tag x y z).is b then .ok true
    else
      match b with
      | .slice _ x' y' z' => do
        if ← x.tryEqualsWith stored x' then
          if ← y.tryEqualsWith stored y' then z.tryEqualsWith stored z' else .ok false
        else .ok false
      | _ => .ok false
  | a, b =>
    if a.is b then .ok true
    else if a.meets b then stored a b
    else .ok (leafEquals (fun _ _ => false) a b)

def tryAllEqualWith (stored : Value → Value → Except Fault Bool) :
    List Value → List Value → Except Fault Bool
  | x :: xs, y :: ys => do
    if ← x.tryEqualsWith stored y then tryAllEqualWith stored xs ys else .ok false
  | _, _ => .ok true
end

/-- Pairs related by `D` have parts that are related by `D`. -/
structure Descends (D : Value → Value → Prop) : Prop where
  tuple : ∀ {tag tag' xs ys}, D (.tuple tag xs) (.tuple tag' ys) → ∀ x ∈ xs, ∀ y ∈ ys, D x y
  slice : ∀ {tag tag' x y z x' y' z'}, D (.slice tag x y z) (.slice tag' x' y' z') →
    D x x' ∧ D y y' ∧ D z z'

section
variable {D : Value → Value → Prop} {stored? : Value → Value → Except Fault Bool}
  {stored : Value → Value → Bool}

theorem tryAllEqualWith_eq {xs ys : List Value} (hlen : xs.length = ys.length)
    (h : ∀ x ∈ xs, ∀ y ∈ ys, x.tryEqualsWith stored? y = .ok (x.equalsWith stored y)) :
    tryAllEqualWith stored? xs ys = .ok (allEqualWith stored xs ys) := by
  induction xs generalizing ys with
  | nil =>
    cases ys with
    | nil => rfl
    | cons y ys => cases hlen
  | cons x xs ih =>
    cases ys with
    | nil => cases hlen
    | cons y ys =>
      have hxy := h x (List.mem_cons_self ..) y (List.mem_cons_self ..)
      have hs := ih (Nat.succ.inj hlen) fun x hx y hy =>
        h x (List.mem_cons_of_mem _ hx) y (List.mem_cons_of_mem _ hy)
      simp only [tryAllEqualWith, allEqualWith, hxy, hs]
      cases x.equalsWith stored y <;> rfl

theorem allEqualWith_of_length_ne {xs ys : List Value} (hlen : xs.length ≠ ys.length) :
    allEqualWith stored xs ys = false := by
  rw [Bool.eq_false_iff]
  exact fun h => hlen (allEqualWith_iff.1 h).length_eq

/-- A comparison fails only where the heap, asked about a pair that it descends
to, fails. -/
theorem tryEqualsWith_eq (descends : Descends D)
    (asked : ∀ {a b}, D a b → Meets a b → stored? a b = .ok (stored a b)) {a b : Value}
    (h : D a b) : a.tryEqualsWith stored? b = .ok (a.equalsWith stored b) := by
  induction a using inductParts generalizing b with
  | step a ih =>
    have leaf : (if a.is b then .ok true
        else if a.meets b then stored? a b else .ok (leafEquals (fun _ _ => false) a b)) =
          (.ok (a.is b || leafEquals stored a b) : Except Fault Bool) := by
      cases a.is b with
      | true => rfl
      | false =>
        cases hm : a.meets b with
        | true => simpa [leafEquals_of_meets (meets_iff.1 hm)] using asked h (meets_iff.1 hm)
        | false =>
          have he : leafEquals (fun _ _ => false) a b = leafEquals stored a b :=
            leafEquals_congr fun hm' => by simp [meets_iff.2 hm'] at hm
          simp [he]
    cases a with
    | int tag n =>
      cases b with
      | int tag' m => rfl
      | _ => simpa only [tryEqualsWith, equalsWith] using leaf
    | tuple tag xs =>
      simp only [tryEqualsWith, equalsWith]
      cases (Value.tuple tag xs).is b with
      | true => rfl
      | false =>
        cases b with
        | tuple tag' ys =>
          by_cases hlen : xs.length = ys.length
          · have hs := tryAllEqualWith_eq hlen fun x hx y hy => ih x hx (descends.tuple h x hx y hy)
            simp [hlen, hs]
          · simp [hlen, allEqualWith_of_length_ne hlen]
        | _ => rfl
    | slice tag x y z =>
      simp only [tryEqualsWith, equalsWith]
      cases (Value.slice tag x y z).is b with
      | true => rfl
      | false =>
        cases b with
        | slice tag' x' y' z' =>
          obtain ⟨hx, hy, hz⟩ := descends.slice h
          have ex := ih x (by simp [parts]) hx
          have ey := ih y (by simp [parts]) hy
          have ez := ih z (by simp [parts]) hz
          simp only [ex, ey, ez]
          cases x.equalsWith stored x' <;> cases y.equalsWith stored y' <;> rfl
        | _ => rfl
    | _ => simpa only [tryEqualsWith, equalsWith] using leaf

/-- Equality depends only on what the heap answers about the pairs that it
descends to. -/
theorem equalsWith_congr {stored' : Value → Value → Bool} (descends : Descends D)
    (asked : ∀ {a b}, D a b → Meets a b → stored a b = stored' a b) {a b : Value} (h : D a b) :
    a.equalsWith stored b = a.equalsWith stored' b := by
  have hs : a.tryEqualsWith (fun a b => .ok (stored a b)) b = .ok (a.equalsWith stored b) :=
    tryEqualsWith_eq descends (fun _ _ => rfl) h
  have hs' : a.tryEqualsWith (fun a b => .ok (stored a b)) b = .ok (a.equalsWith stored' b) :=
    tryEqualsWith_eq descends (fun hD hm => congrArg _ (asked hD hm)) h
  exact Except.ok.inj (hs.symm.trans hs')

end

end ObjectModel.Value
