import Mathlib.Order.Bounds.Basic
import ObjectModel.Proofs.Text.Method

/-!
# Searching between bounds

Finding gives the first occurrence between two bounds and counting the number of
those that follow it without overlap. The bounds are those of a slice, except that
nothing is found from a start past the end. Bounds that are crossed within the text
have nothing between them; there the empty text is found all the same.

Main statement: `searches_between`.
-/

namespace ObjectModel

namespace Occurrence

variable {α : Type} [BEq α] [LawfulBEq α]

/-- There is no occurrence before the one that is found. -/
theorem not_isPrefix_drop {sub xs : List α} {i : Nat}
    (early : ∀ found ∈ firstCut? sub xs, i < found.1.length) : ¬ sub <+: xs.drop i := by
  induction xs generalizing i with
  | nil =>
    cases sub with
    | nil => exact absurd (early _ rfl) (Nat.not_lt_zero _)
    | cons => simp
  | cons x xs ih =>
    rw [firstCut?] at early
    split at early
    · exact absurd (early _ rfl) (Nat.not_lt_zero _)
    · next missing =>
      cases i with
      | zero => exact fun here => missing (List.isPrefixOf_iff_prefix.2 here)
      | succ i =>
        refine ih fun found hfound => ?_
        exact Nat.lt_of_succ_lt_succ (early _ (Option.mem_map_of_mem _ hfound))

end Occurrence

namespace Text

/-- The text occurs at the place `i`, and lies between the bounds. -/
structure OccursWithin (sub cs : List Char) (first last : Int) (i : Nat) : Prop where
  after : first ≤ i
  before : i + sub.length ≤ last
  here : (cs.drop i).take sub.length = sub

/-- The first occurrence, the first one after it that does not overlap it, and so on. -/
inductive Greedy (sub cs : List Char) (last : Int) : Int → List Nat → Prop
  | done {first : Int} (missing : ∀ i, ¬ OccursWithin sub cs first last i) :
      Greedy sub cs last first []
  | next {first : Int} {i : Nat} {is : List Nat}
      (least : IsLeast {i | OccursWithin sub cs first last i} i)
      (rest : Greedy sub cs last (i + sub.length) is) : Greedy sub cs last first (i :: is)

variable {sub cs front back : List Char} {a b i : Nat}

theorem Greedy.unique {first last : Int} {is js : List Nat} (h : Greedy sub cs last first is)
    (h' : Greedy sub cs last first js) : is = js := by
  induction h generalizing js with
  | done missing =>
    cases h' with
    | done => rfl
    | next least => exact absurd least.1 (missing _)
  | next least _ ih =>
    cases h' with
    | done missing => exact absurd least.1 (missing _)
    | next least' rest =>
      cases least.unique least'
      rw [ih rest]

-- ---------------------------------------------------------------------------
-- The characters between two places
-- ---------------------------------------------------------------------------

/-- From one place up to another. -/
def between (cs : List Char) (a b : Nat) : List Char := (cs.drop a).take (b - a)

theorem length_between (hb : b ≤ cs.length) (a : Nat) : (between cs a b).length = b - a := by
  rw [between, List.length_take, List.length_drop]
  omega

theorem drop_between (cs : List Char) (a b i : Nat) :
    (between cs a b).drop i = between cs (a + i) b := by
  rw [between, between, List.drop_take, List.drop_drop, Nat.sub_sub]

theorem occursWithin_iff (inside : a + i ≤ b) :
    OccursWithin sub cs a b (a + i) ↔ sub <+: (between cs a b).drop i := by
  rw [drop_between, between, List.prefix_take_iff, List.prefix_iff_eq_take]
  constructor
  · rintro ⟨-, before, here⟩
    exact ⟨here.symm, by omega⟩
  · rintro ⟨here, fits⟩
    exact ⟨by omega, by omega, here.symm⟩

theorem firstCut?_eq (sub cs : List Char) : Occurrence.firstCut? sub cs = cut? sub cs :=
  (Occurrence.cut?_eq ..).symm

theorem missing_of_cut? (h : cut? sub (between cs a b) = none) (i : Nat) :
    ¬ OccursWithin sub cs a b i := by
  intro occurs
  have after := occurs.after
  have before := occurs.before
  obtain ⟨i, rfl⟩ := Nat.exists_eq_add_of_le (show a ≤ i by omega)
  refine Occurrence.not_isPrefix_drop (fun found hfound => ?_)
    ((occursWithin_iff (by omega)).1 occurs)
  rw [firstCut?_eq, h] at hfound
  cases hfound

/-- What is cut off is the first occurrence between the places; the rest is what is
between its end and the second place. -/
theorem isLeast_of_cut? (hb : b ≤ cs.length) (order : a ≤ b)
    (h : cut? sub (between cs a b) = some (front, back)) :
    IsLeast {i | OccursWithin sub cs a b i} (a + front.length) ∧
      back = between cs (a + front.length + sub.length) b := by
  have first := (firstCut?_eq ..).trans h
  have whole := Occurrence.eq_append_of_firstCut? first
  have size := congrArg List.length whole
  rw [length_between hb, List.length_append, List.length_append] at size
  have rest : (between cs a b).drop front.length = sub ++ back := by
    rw [whole, List.append_assoc, List.drop_left]
  refine ⟨⟨(occursWithin_iff (by omega)).2 (rest ▸ List.prefix_append ..), fun i occurs => ?_⟩, ?_⟩
  · have after := occurs.after
    obtain ⟨i, rfl⟩ := Nat.exists_eq_add_of_le (show a ≤ i by omega)
    refine Nat.add_le_add_left (Nat.not_lt.1 fun early => ?_) a
    refine Occurrence.not_isPrefix_drop (fun found hfound => ?_)
      ((occursWithin_iff (by omega)).1 occurs)
    cases first.symm.trans hfound
    exact early
  · rw [← drop_between, ← drop_between, rest, List.drop_left]

/-- The leading occurrences cut a text into one piece more than there are of them. -/
theorem exists_greedy (ne : sub ≠ []) (hb : b ≤ cs.length) (a : Nat) :
    ∃ is, Greedy sub cs b a is ∧ (pieces sub none (between cs a b)).length = is.length + 1 := by
  -- After an occurrence, fewer characters are left before the bound.
  induction h : b - a using Nat.strong_induction_on generalizing a with
  | _ n ih =>
    subst h
    cases h : cut? sub (between cs a b) with
    | none => exact ⟨[], .done (missing_of_cut? h), by rw [pieces_of_none h]; rfl⟩
    | some found =>
      obtain ⟨front, back⟩ := found
      have shorter := Occurrence.length_lt_of_cut? ne h
      rw [length_between hb] at shorter
      obtain ⟨least, rfl⟩ := isLeast_of_cut? hb (by omega) h
      have pos := List.length_pos_of_ne_nil ne
      obtain ⟨is, rest, length⟩ := ih _ (by omega) (a + front.length + sub.length) rfl
      refine ⟨_ :: is, .next least ?_, ?_⟩
      · exact_mod_cast rest
      · rw [pieces_of_some ne (by simp) h, List.length_cons, List.length_cons]
        exact congrArg (· + 1) length

-- ---------------------------------------------------------------------------
-- The bounds
-- ---------------------------------------------------------------------------

/-- Where a search starts: as a slice does, or past the end. -/
def searchStart (length : Nat) (start : Option Int64) : Int :=
  let raw := (start.map Int64.toInt).getD 0
  if length < raw then raw else Slice.clamp length 0 length 0 start

/-- Where a search ends, as a slice does. -/
def searchEnd (length : Nat) (stop : Option Int64) : Int :=
  Slice.clamp length 0 length length stop

theorem coe_clampBound (length : Nat) (default : Int) (bound : Int64) :
    (clampBound length bound.toInt : Int) = Slice.clamp length 0 length default (some bound) := by
  rw [clampBound, Slice.clamp]
  split <;> omega

theorem coe_searchStart (length : Nat) (start : Option Int64) :
    searchStart length start =
      if (length : Int) < (start.map Int64.toInt).getD 0 then (start.map Int64.toInt).getD 0
      else clampBound length ((start.map Int64.toInt).getD 0) := by
  cases start with
  | none => simp [searchStart, Slice.clamp, clampBound]
  | some start => exact congrArg (ite _ _) (coe_clampBound length 0 start).symm

theorem coe_searchEnd (length : Nat) (stop : Option Int64) :
    searchEnd length stop = clampBound length ((stop.map Int64.toInt).getD length) := by
  cases stop with
  | none =>
    rw [searchEnd, Slice.clamp, Option.map_none, Option.getD_none, clampBound]
    split <;> omega
  | some stop => exact (coe_clampBound length length stop).symm

variable {t : Text} {start : Option Int64}

theorem window?_of_past (past : t.count < searchStart t.count start) (stop : Option Int64) :
    t.window? start stop = none := by
  rw [coe_searchStart] at past
  have := clampBound_le t.count ((start.map Int64.toInt).getD 0)
  exact if_pos (by split at past <;> omega)

theorem between_max (cs : List Char) (a b : Nat) :
    (if max b a = cs.length then cs.drop a else (cs.drop a).take (max b a - a)) =
      between cs a b := by
  split
  · rw [between, List.take_of_length_le]
    rw [List.length_drop]
    omega
  · rw [between, show max b a - a = b - a by omega]

theorem exists_window (inside : searchStart t.count start ≤ t.count) (stop : Option Int64) :
    ∃ a b : Nat, searchStart t.count start = a ∧ searchEnd t.count stop = b ∧
      b ≤ t.chars.length ∧ t.window? start stop = some (a, between t.chars a b) := by
  have started := coe_searchStart t.count start
  split at started
  · omega
  · next near =>
    have within : clampBound t.count ((stop.map Int64.toInt).getD t.count) ≤ t.chars.length :=
      t.count_eq ▸ clampBound_le ..
    refine ⟨_, _, started, coe_searchEnd t.count stop, within, ?_⟩
    rw [window?, if_neg near, ← between_max, ← t.count_eq]

-- ---------------------------------------------------------------------------
-- Finding and counting
-- ---------------------------------------------------------------------------

/-- The first occurrence between the bounds, or minus one if there is none. -/
def IsFirst (sub cs : List Char) (first last : Int) (found : Int64) : Prop :=
  (∃ i, IsLeast {i | OccursWithin sub cs first last i} i ∧ found = Int64.ofNat i) ∨
    (∀ i, ¬ OccursWithin sub cs first last i) ∧ found = -1

/-- The number of occurrences between the bounds, without overlap. The empty text occurs
at each place. -/
def IsNumber (sub cs : List Char) (first last : Int) (n : Nat) : Prop :=
  if last < first then n = 0
  else if sub = [] then n = last - first + 1
  else ∃ is, Greedy sub cs last first is ∧ n = is.length

variable {stop : Option Int64}

/-- Nothing is between bounds that are crossed. -/
theorem search_of_crossed {first last : Int} (crossed : last < first) (sub cs : List Char) :
    IsFirst sub cs first last (-1) ∧ IsNumber sub cs first last 0 := by
  refine ⟨.inr ⟨fun i occurs => ?_, rfl⟩, by rw [IsNumber, if_pos crossed]⟩
  have := occurs.after
  have := occurs.before
  omega

theorem isFirst_cut? (hb : b ≤ cs.length) (order : a ≤ b) (sub : List Char) :
    IsFirst sub cs a b
      (((cut? sub (between cs a b)).map fun found => a + found.1.length).elim (-1)
        Int64.ofNat) := by
  cases h : cut? sub (between cs a b) with
  | none => exact .inr ⟨missing_of_cut? h, rfl⟩
  | some found => exact .inl ⟨_, (isLeast_of_cut? hb order h).1, rfl⟩

theorem isNumber_countOccurrences (hb : b ≤ cs.length) (order : a ≤ b) (sub : List Char) :
    IsNumber sub cs a b (countOccurrences sub (between cs a b)) := by
  rw [IsNumber, if_neg (by omega), countOccurrences]
  split
  · next empty =>
    rw [if_pos (List.isEmpty_iff.2 empty), length_between hb]
    omega
  · next ne =>
    obtain ⟨is, greedy, length⟩ := exists_greedy ne hb a
    rw [if_neg (mt List.isEmpty_iff.1 ne), length]
    exact ⟨is, greedy, rfl⟩

theorem find?_of_window (h : t.window? start stop = some (a, cs)) (sub : List Char) :
    t.find? sub start stop = (cut? sub cs).map fun found => a + found.1.length := by
  simp only [find?, h, Option.bind_eq_bind, Option.bind_some]
  cases cut? sub cs <;> rfl

theorem countWithin_of_window (h : t.window? start stop = some (a, cs)) (sub : List Char) :
    t.countWithin sub start stop = countOccurrences sub cs := by
  rw [countWithin, h]

theorem find?_of_past (past : t.count < searchStart t.count start) (sub : List Char) :
    t.find? sub start stop = none := by
  rw [find?, window?_of_past past, Option.bind_eq_bind, Option.bind_none]

theorem countWithin_of_past (past : t.count < searchStart t.count start) (sub : List Char) :
    t.countWithin sub start stop = 0 := by
  rw [countWithin, window?_of_past past]

/-- Among no characters, only the empty text is found. -/
theorem search_nil (sub : List Char) :
    if sub = [] then cut? sub [] = some ([], []) ∧ countOccurrences sub [] = 1
    else cut? sub [] = none ∧ countOccurrences sub [] = 0 := by
  split
  · next empty =>
    subst empty
    exact ⟨rfl, rfl⟩
  · next ne =>
    have missing : cut? sub [] = none := by
      rw [← firstCut?_eq, Occurrence.firstCut?, if_neg (mt List.isEmpty_iff.1 ne)]
    refine ⟨missing, ?_⟩
    rw [countOccurrences, if_neg (mt List.isEmpty_iff.1 ne), pieces_of_none missing]
    rfl

theorem search_eq (t : Text) (sub : List Char) (start stop : Option Int64) :
    let first := searchStart t.count start
    let last := searchEnd t.count stop
    let found := (t.find? sub start stop).elim (-1) Int64.ofNat
    let n := t.countWithin sub start stop
    if sub = [] ∧ last < first ∧ first ≤ t.count then found = Int64.ofInt first ∧ n = 1
    else IsFirst sub t.chars first last found ∧ IsNumber sub t.chars first last n := by
  dsimp only
  by_cases past : t.count < searchStart t.count start
  · have upper := clampBound_le t.count ((stop.map Int64.toInt).getD t.count)
    have crossed : searchEnd t.count stop < searchStart t.count start := by
      rw [coe_searchEnd]
      omega
    rw [if_neg (by omega), find?_of_past past, countWithin_of_past past]
    exact search_of_crossed crossed sub t.chars
  obtain ⟨a, b, hfirst, hlast, hb, window⟩ := exists_window (Int.not_lt.1 past) stop
  rw [find?_of_window window, countWithin_of_window window, hfirst, hlast]
  by_cases order : a ≤ b
  · rw [if_neg (by omega)]
    exact ⟨isFirst_cut? hb order sub, isNumber_countOccurrences hb order sub⟩
  · have none : between t.chars a b = [] := by
      rw [between, Nat.sub_eq_zero_of_le (by omega), List.take_zero]
    have crossed : (b : Int) < a := by omega
    have search := search_nil sub
    rw [none]
    by_cases empty : sub = []
    · rw [if_pos empty] at search
      rw [if_pos ⟨empty, crossed, by omega⟩, search.1, search.2]
      exact ⟨rfl, rfl⟩
    · rw [if_neg empty] at search
      rw [if_neg (mt And.left empty), search.1, search.2]
      exact search_of_crossed crossed sub t.chars

end Text

namespace TextMethod

open ObjectModel.Action ObjectModel.Text

/-- With up to two bounds, finding ends with the first occurrence between them and
counting with the number of occurrences, except that the empty text is found once where
the bounds are crossed within the text. -/
theorem searches_between {vs : List Value} {start stop : Option Int64} (h : Bounds vs start stop)
    (tag tag' : Tag) (t sub : Text) (s : Session) :
    let first := searchStart t.count start
    let last := searchEnd t.count stop
    ∃ made₁ made₂ s₁ s₂ found n,
      (callMethod (.str tag t) "find".toList ⟨.str tag' sub :: vs, ∅⟩).runOn s =
        (.ok (.int made₁ found), s₁) ∧
      (callMethod (.str tag t) "count".toList ⟨.str tag' sub :: vs, ∅⟩).runOn s =
        (.ok (.int made₂ (Int64.ofNat n)), s₂) ∧
      if sub.chars = [] ∧ last < first ∧ first ≤ t.count then found = Int64.ofInt first ∧ n = 1
      else IsFirst sub.chars t.chars first last found ∧
        IsNumber sub.chars t.chars first last n := by
  obtain ⟨made₁, s₁, finds⟩ := runOn_find h tag tag' t sub s
  obtain ⟨made₂, s₂, counts⟩ := runOn_count h tag tag' t sub s
  exact ⟨made₁, made₂, s₁, s₂, _, _, finds, counts, search_eq t sub.chars start stop⟩

/-- In `aaaa` the text `aa` occurs at three places, two of which do not overlap. -/
theorem searches_between_doubled :
    ∃ made₁ made₂ s₁ s₂,
      (callMethod (.str 1 (.ofChars ['a', 'a', 'a', 'a'])) "find".toList
        ⟨[.str 2 (.ofChars ['a', 'a'])], ∅⟩).runOn (.start [] false) =
        (.ok (.int made₁ 0), s₁) ∧
      (callMethod (.str 1 (.ofChars ['a', 'a', 'a', 'a'])) "count".toList
        ⟨[.str 2 (.ofChars ['a', 'a'])], ∅⟩).runOn (.start [] false) =
        (.ok (.int made₂ 2), s₂) := by
  have least : IsLeast {i | OccursWithin ['a', 'a'] ['a', 'a', 'a', 'a'] 0 4 i} 0 :=
    ⟨⟨by decide, by decide, rfl⟩, fun _ _ => Nat.zero_le _⟩
  have greedy : Greedy ['a', 'a'] ['a', 'a', 'a', 'a'] 4 0 [0, 2] := by
    refine .next least (.next ⟨⟨by decide, by decide, rfl⟩, fun i occurs => ?_⟩ (.done ?_))
    · exact Int.ofNat_le.1 occurs.after
    · rintro i ⟨after, before, -⟩
      simp only [List.length_cons, List.length_nil] at after before
      omega
  obtain ⟨made₁, made₂, s₁, s₂, found, n, finds, counts, first, number⟩ :=
    searches_between .none 1 2 (.ofChars ['a', 'a', 'a', 'a']) (.ofChars ['a', 'a'])
      (.start [] false)
  obtain ⟨i, isLeast, rfl⟩ | ⟨missing, -⟩ := first
  · obtain rfl := isLeast.unique least
    obtain ⟨is, others, rfl⟩ := number
    obtain rfl := others.unique greedy
    exact ⟨made₁, made₂, s₁, s₂, finds, counts⟩
  · exact absurd least.1 (missing 0)

/-- Nothing is in `abc` from place 2 to place 1, but the empty text is found at place 2
and counted once. -/
theorem not_searches_between_of_crossed :
    ∃ made₁ made₂ s₁ s₂,
      (callMethod (.str 1 (.ofChars ['a', 'b', 'c'])) "find".toList
        ⟨[.str 2 .empty, .int 3 2, .int 4 1], ∅⟩).runOn (.start [] false) =
        (.ok (.int made₁ 2), s₁) ∧
      (callMethod (.str 1 (.ofChars ['a', 'b', 'c'])) "count".toList
        ⟨[.str 2 .empty, .int 3 2, .int 4 1], ∅⟩).runOn (.start [] false) =
        (.ok (.int made₂ 1), s₂) ∧
      searchStart 3 (some 2) = 2 ∧ searchEnd 3 (some 1) = 1 ∧
      ¬ IsFirst [] ['a', 'b', 'c'] 2 1 2 ∧ ¬ IsNumber [] ['a', 'b', 'c'] 2 1 1 := by
  have bounds : Bounds [.int 3 2, .int 4 1] (some 2) (some 1) := .both (.int 3 2) (.int 4 1)
  obtain ⟨made₁, s₁, finds⟩ :=
    runOn_find bounds 1 2 (.ofChars ['a', 'b', 'c']) .empty (.start [] false)
  obtain ⟨made₂, s₂, counts⟩ :=
    runOn_count bounds 1 2 (.ofChars ['a', 'b', 'c']) .empty (.start [] false)
  refine ⟨made₁, made₂, s₁, s₂, finds, counts, by decide, by decide, ?_, by simp [IsNumber]⟩
  rintro (⟨i, ⟨occurs, -⟩, -⟩ | ⟨-, missed⟩)
  · have := occurs.after
    have := occurs.before
    omega
  · cases missed

end TextMethod

end ObjectModel
