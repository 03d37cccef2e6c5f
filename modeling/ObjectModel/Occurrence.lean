/-!
# Occurrences

The first occurrence of one sequence in another. A fingerprint of the items in
view moves along with the search; only where it agrees with that of the sequence
looked for are the items themselves compared.

Main statement: `cut?_eq` says that this finds what comparing at every place
finds.
-/

namespace ObjectModel.Occurrence

variable {α : Type}

/-- The factor between the places of a fingerprint. -/
private def placeFactor : UInt64 := 6364136223846793005

/-- The items of a sequence as the digits of a number, modulo 2^64. -/
def fingerprint (code : α → UInt64) (xs : List α) : UInt64 :=
  xs.foldl (fun f x => f * placeFactor + code x) 0

/-- The weight of the first of `n + 1` digits. -/
def leadingWeight : Nat → UInt64
  | 0 => 1
  | n + 1 => leadingWeight n * placeFactor

theorem fingerprint_append (code : α → UInt64) (xs : List α) (y : α) :
    fingerprint code (xs ++ [y]) = fingerprint code xs * placeFactor + code y := by
  simp [fingerprint]

theorem fingerprint_cons (code : α → UInt64) (x : α) (xs : List α) :
    fingerprint code (x :: xs) = code x * leadingWeight xs.length + fingerprint code xs := by
  have h (f : UInt64) : xs.foldl (fun f x => f * placeFactor + code x) f =
      f * leadingWeight xs.length + xs.foldl (fun f x => f * placeFactor + code x) 0 := by
    induction xs generalizing f with
    | nil => simp [leadingWeight]
    | cons y ys ih =>
      simp only [List.foldl_cons, List.length_cons, leadingWeight]
      rw [ih, ih (0 * placeFactor + code y)]
      grind
  simpa [fingerprint] using h (code x)

/-- Moving the view by one item. -/
theorem fingerprint_move (code : α → UInt64) (x y : α) (xs : List α) :
    (fingerprint code (x :: xs) - code x * leadingWeight xs.length) * placeFactor + code y =
      fingerprint code (xs ++ [y]) := by
  rw [fingerprint_append, fingerprint_cons]
  grind

variable [BEq α]

/-- What comes before and after the first occurrence of `sub`, comparing at every
place. -/
def firstCut? (sub : List α) : List α → Option (List α × List α)
  | [] => if sub.isEmpty then some ([], []) else none
  | x :: xs =>
    if sub.isPrefixOf (x :: xs) then some ([], (x :: xs).drop sub.length)
    else (firstCut? sub xs).map fun (front, back) => (x :: front, back)

/-- Searches on from a place; `current` is the fingerprint of the items in view,
`ahead` what comes after them, and `passed` what came before, the last first. -/
def search (code : α → UInt64) (sub : List α) (target weight : UInt64) (current : UInt64)
    (passed : List α) : (ahead items : List α) → Option (List α × List α)
  | y :: ahead, x :: xs =>
    if current == target && sub.isPrefixOf (x :: xs) then
      some (passed.reverse, (x :: xs).drop sub.length)
    else
      search code sub target weight ((current - code x * weight) * placeFactor + code y)
        (x :: passed) ahead xs
  | _ :: _, [] => none
  | [], xs => if sub.isPrefixOf xs then some (passed.reverse, xs.drop sub.length) else none

/-- What comes before and after the first occurrence of `sub`. -/
def cut? (code : α → UInt64) (sub xs : List α) : Option (List α × List α) :=
  if sub.isEmpty then some ([], xs)
  else
    search code sub (fingerprint code sub) (leadingWeight (sub.length - 1))
      (fingerprint code (xs.take sub.length)) [] (xs.drop sub.length) xs

variable [LawfulBEq α]

theorem firstCut?_of_length_lt {sub xs : List α} (h : xs.length < sub.length) :
    firstCut? sub xs = none := by
  induction xs with
  | nil =>
    cases sub with
    | nil => cases h
    | cons => rfl
  | cons x xs ih =>
    have hp : ¬ sub.isPrefixOf (x :: xs) = true := fun hc => by
      have := (List.isPrefixOf_iff_prefix.1 hc).length_le
      omega
    rw [firstCut?, if_neg hp, ih (by simp only [List.length_cons] at h; omega)]
    rfl

/-- Searching on finds the first occurrence in what is left. -/
theorem search_eq (code : α → UInt64) (sub passed view ahead : List α) (hs : sub ≠ [])
    (hl : view.length = sub.length) :
    search code sub (fingerprint code sub) (leadingWeight (sub.length - 1))
        (fingerprint code view) passed ahead (view ++ ahead) =
      (firstCut? sub (view ++ ahead)).map fun (front, back) => (passed.reverse ++ front, back) := by
  induction ahead generalizing passed view with
  | nil =>
    rw [List.append_nil]
    obtain ⟨x, xs, rfl⟩ := List.exists_cons_of_length_pos
      (show 0 < view.length by rw [hl]; exact List.length_pos_iff.2 hs)
    rw [search, firstCut?]
    split
    · simp
    · rw [firstCut?_of_length_lt (by simp only [List.length_cons] at hl; omega)]
      rfl
  | cons y ahead ih =>
    obtain ⟨x, xs, rfl⟩ := List.exists_cons_of_length_pos
      (show 0 < view.length by rw [hl]; exact List.length_pos_iff.2 hs)
    have hw : sub.length - 1 = xs.length := by simp only [List.length_cons] at hl; omega
    rw [List.cons_append, search, firstCut?]
    by_cases hp : sub.isPrefixOf (x :: (xs ++ y :: ahead)) = true
    · have hx : x :: xs <+: x :: (xs ++ y :: ahead) := ⟨y :: ahead, rfl⟩
      have he : sub = x :: xs :=
        (List.prefix_of_prefix_length_le (List.isPrefixOf_iff_prefix.1 hp) hx
          (Nat.le_of_eq hl.symm)).eq_of_length hl.symm
      simp [hp, ← he]
    · have ih := ih (x :: passed) (xs ++ [y]) (by simpa using hl)
      rw [← fingerprint_move code x y xs, List.append_assoc, List.singleton_append] at ih
      rw [if_neg (by simp [hp]), if_neg hp, hw]
      rw [hw] at ih
      rw [ih]
      simp [Function.comp_def]

/-- The first occurrence, found by fingerprints, is the one found by comparing
at every place. -/
theorem cut?_eq (code : α → UInt64) (sub xs : List α) : cut? code sub xs = firstCut? sub xs := by
  cases sub with
  | nil =>
    cases xs <;> simp [cut?, firstCut?]
  | cons s ss =>
    rw [cut?, if_neg (by simp)]
    by_cases hl : (s :: ss).length ≤ xs.length
    · have h := search_eq code (s :: ss) [] (xs.take (s :: ss).length) (xs.drop (s :: ss).length)
        (by simp) (by rw [List.length_take]; omega)
      rw [List.take_append_drop] at h
      rw [h]
      simp
    · rw [firstCut?_of_length_lt (by omega), List.drop_eq_nil_of_le (by omega), search]
      refine if_neg fun hc => hl ?_
      exact (List.isPrefixOf_iff_prefix.1 hc).length_le

/-- The parts around an occurrence give the sequence back. -/
theorem eq_append_of_firstCut? {sub xs front back : List α}
    (h : firstCut? sub xs = some (front, back)) : xs = front ++ sub ++ back := by
  induction xs generalizing front with
  | nil =>
    cases sub with
    | nil => cases h; rfl
    | cons => cases h
  | cons x xs ih =>
    rw [firstCut?] at h
    split at h
    · next hp =>
      obtain ⟨rest, hr⟩ := List.isPrefixOf_iff_prefix.1 hp
      cases h
      simp [← hr]
    · obtain ⟨⟨f, b⟩, hf, he⟩ := Option.map_eq_some_iff.1 h
      cases he
      rw [ih hf]
      rfl

/-- What is left after an occurrence is shorter. -/
theorem length_lt_of_cut? {code : α → UInt64} {sub xs front back : List α} (hs : sub ≠ [])
    (h : cut? code sub xs = some (front, back)) : back.length < xs.length := by
  rw [cut?_eq] at h
  have := List.length_pos_iff.2 hs
  rw [eq_append_of_firstCut? h, List.length_append, List.length_append]
  omega

end ObjectModel.Occurrence
