import ObjectModel.Proofs.Sorting.Joining

/-!
# Sorting by rank

Where the comparison ranks the items, sorting gives the one list that they sort
to, whatever their number.

Main statements: `partitionSort_sorts` and `sort_of_decides`.
-/

namespace ObjectModel.Sorting

variable {α β : Type} [LinearOrder β] {rank : α → β} {S : α → Prop} {before : Before α}
  {xs ys : List α}

-- ---------------------------------------------------------------------------
-- Partitioning
-- ---------------------------------------------------------------------------

/-- A list starts at some item of another. -/
def StartsIn (xs zs : List α) : Prop := zs <:+ xs ∧ zs ≠ []

theorem medianHead_startsIn (hd : Decides rank S before) (hs : ∀ x ∈ xs, S x) {a b c : List α}
    (ha : StartsIn xs a) (hb : StartsIn xs b) (hc : StartsIn xs c) :
    Succeeds (StartsIn xs) (medianHead before a b c) := by
  obtain ⟨x, as, rfl⟩ := List.exists_cons_of_ne_nil ha.2
  obtain ⟨y, bs, rfl⟩ := List.exists_cons_of_ne_nil hb.2
  obtain ⟨z, cs, rfl⟩ := List.exists_cons_of_ne_nil hc.2
  have sx := hs x (ha.1.subset List.mem_cons_self)
  have sy := hs y (hb.1.subset List.mem_cons_self)
  have sz := hs z (hc.1.subset List.mem_cons_self)
  dsimp only [medianHead]
  rw [hd x y sx sy, hd x z sx sz, hd y z sy sz]
  refine .ite (.pure ?_) (.pure ha)
  split
  · exact hc
  · exact hb

theorem startsIn_drop {zs : List α} (h : zs <:+ xs) {i : Nat} (more : i < zs.length) :
    StartsIn xs (zs.drop i) :=
  ⟨(zs.drop_suffix i).trans h, by simpa using more⟩

theorem medianFrom_startsIn (hd : Decides rank S before) (hs : ∀ x ∈ xs, S x) (n : Nat)
    {a b c : List α} (ha : StartsIn xs a) (hb : StartsIn xs b) (hc : StartsIn xs c)
    (la : n ≤ a.length) (lb : n ≤ b.length) (lc : n ≤ c.length) :
    Succeeds (StartsIn xs) (medianFrom before n a b c) := by
  induction n using Nat.strongRecOn generalizing a b c with
  | ind n ih =>
    rw [medianFrom]
    split
    · have inner {zs : List α} (h : StartsIn xs zs) (long : n ≤ zs.length) :
          Succeeds (StartsIn xs)
            (medianFrom before (n / 8) zs (zs.drop (n / 8 * 4)) (zs.drop (n / 8 * 7))) := by
        have hl := List.length_drop (i := n / 8 * 4) (l := zs)
        have hl' := List.length_drop (i := n / 8 * 7) (l := zs)
        exact ih (n / 8) (by omega) h (startsIn_drop h.1 (by omega)) (startsIn_drop h.1 (by omega))
          (by omega) (by omega) (by omega)
      refine (inner ha la).bind fun a ha => (inner hb lb).bind fun b hb => ?_
      exact (inner hc lc).bind fun c hc => medianHead_startsIn hd hs ha hb hc
    · exact medianHead_startsIn hd hs ha hb hc

/-- A pivot is an item of the list. -/
theorem pivotSuffix_startsIn (hd : Decides rank S before) (hs : ∀ x ∈ xs, S x)
    (long : 8 ≤ xs.length) : Succeeds (StartsIn xs) (pivotSuffix before xs) := by
  have hl := List.length_drop (i := xs.length / 8 * 4) (l := xs)
  have hl' := List.length_drop (i := xs.length / 8 * 7) (l := xs)
  exact medianFrom_startsIn hd hs _ ⟨List.suffix_rfl, List.ne_nil_of_length_pos (by omega)⟩
    (startsIn_drop List.suffix_rfl (by omega)) (startsIn_drop List.suffix_rfl (by omega))
    (by omega) (by omega) (by omega)

/-- A test that never fails splits a list into two filters of it. -/
theorem separate_eq {test : α → Except Fault Bool} {p : α → Bool}
    (ht : ∀ x ∈ xs, test x = .ok (p x)) (passed failed : List α) :
    separate test passed failed xs =
      .ok ((xs.filter p).reverse ++ passed, (xs.filter (!p ·)).reverse ++ failed) := by
  induction xs generalizing passed failed with
  | nil => rfl
  | cons x xs ih =>
    obtain ⟨hx, ht⟩ := List.forall_mem_cons.1 ht
    rw [separate, hx, ok_bind, ih ht, ih ht]
    cases h : p x <;> simp [h]

theorem splitAround_eq {test : α → Except Fault Bool} {p : α → Bool} {front back : List α}
    {pivot : α} (ht : ∀ x ∈ front ++ pivot :: back, test x = .ok (p x)) :
    splitAround test (p pivot) front pivot back =
      .ok ((front ++ pivot :: back).filter p, (front ++ pivot :: back).filter (!p ·)) := by
  obtain ⟨hf, hb⟩ := List.forall_mem_append.1 ht
  obtain ⟨hp, hb⟩ := List.forall_mem_cons.1 hb
  rw [splitAround, separate_eq hf, ok_bind]
  cases h : p pivot <;> simp [separate_eq hb, h]

theorem level_filter (p : β → Bool) (k : β) :
    level rank k (xs.filter fun x => p (rank x)) = if p k then level rank k xs else [] := by
  rw [level, List.filter_filter]
  split
  · next h => exact List.filter_congr fun x _ => by grind
  · next h => exact List.filter_eq_nil_iff.2 fun x _ => by grind

/-- What passes a test on ranks, sorted, and then what fails it, sorted. -/
theorem SortsTo.of_filters {us vs : List α} (p : β → Bool)
    (hu : SortsTo rank (xs.filter fun x => p (rank x)) us)
    (hv : SortsTo rank (xs.filter fun x => !p (rank x)) vs)
    (le : ∀ x ∈ xs, ∀ y ∈ xs, p (rank x) = true → p (rank y) = false → rank x ≤ rank y) :
    SortsTo rank xs (us ++ vs) where
  ascends := by
    refine List.pairwise_append.2 ⟨hu.ascends, hv.ascends, fun u h v h' => ?_⟩
    obtain ⟨hx, passes⟩ := List.mem_filter.1 (hu.mem_iff.1 h)
    obtain ⟨hy, fails⟩ := List.mem_filter.1 (hv.mem_iff.1 h')
    exact le u hx v hy passes (by simpa using fails)
  level_eq k := by
    rw [level_append, hu.level_eq, hv.level_eq, level_filter, level_filter (fun b => !p b)]
    cases p k <;> simp

/-- A pivot that is equivalent to one that all items follow has none before it. -/
theorem isRepeated_eq (hd : Decides rank S before) {ancestor : Option α} {pivot : α}
    (ha : ∀ a ∈ ancestor, S a) (hp : S pivot) :
    isRepeated before ancestor pivot = .ok (ancestor.any fun a => rank pivot ≤ rank a) := by
  cases ancestor with
  | none => rfl
  | some a =>
    rw [isRepeated, hd a pivot (ha a rfl) hp]
    simp [← not_lt]

theorem splitLess_eq (hd : Decides rank S before) {front back : List α} {pivot : α}
    (hs : ∀ x ∈ front ++ pivot :: back, S x) {repeated : Bool}
    (least : repeated = true → ∀ x ∈ front ++ pivot :: back, rank pivot ≤ rank x) :
    splitLess before repeated front pivot back =
      .ok ((front ++ pivot :: back).filter fun x => rank x < rank pivot,
        (front ++ pivot :: back).filter fun x => !decide (rank x < rank pivot)) := by
  have sp : S pivot := hs pivot (by simp)
  unfold splitLess
  cases repeated with
  | true =>
    have none_less : ∀ x ∈ front ++ pivot :: back, ¬rank x < rank pivot := fun x hx =>
      not_lt.2 (least rfl x hx)
    rw [List.filter_eq_nil_iff.2 (by simpa using none_less),
      List.filter_eq_self.2 (by simpa using none_less)]
    rfl
  | false =>
    have asked := splitAround_eq (p := fun x => rank x < rank pivot) fun x hx =>
      hd x pivot (hs x hx) sp
    rwa [decide_eq_false (lt_irrefl _)] at asked

theorem splitEquivalent_eq (hd : Decides rank S before) {front back : List α} {pivot : α}
    (hs : ∀ x ∈ front ++ pivot :: back, S x) :
    splitEquivalent before front pivot back =
      .ok ((front ++ pivot :: back).filter fun x => rank x ≤ rank pivot,
        (front ++ pivot :: back).filter fun x => !decide (rank x ≤ rank pivot)) := by
  have sp : S pivot := hs pivot (by simp)
  have asked (x : α) (hx : x ∈ front ++ pivot :: back) :
      (fun x => Bool.not <$> before pivot x) x = .ok (decide (rank x ≤ rank pivot)) := by
    dsimp only
    rw [hd pivot x sp (hs x hx)]
    simp [← not_lt]
  have split := splitAround_eq asked
  rwa [decide_eq_true le_rfl] at split

/-- What is equivalent to a pivot that nothing goes before is in order. -/
theorem equivalent_ascends {pivot : α} (least : ∀ x ∈ xs, rank pivot ≤ rank x) :
    (xs.filter fun x => rank x ≤ rank pivot).Pairwise (rank · ≤ rank ·) :=
  List.pairwise_of_forall_mem_list fun x hx y hy => by
    have greatest : rank x ≤ rank pivot := by simpa using (List.mem_filter.1 hx).2
    exact greatest.trans (least y (List.mem_filter.1 hy).1)

theorem follows_none (xs : List α) :
    ∀ a ∈ (none : Option α), S a ∧ ∀ x ∈ xs, rank a ≤ rank x := by simp

theorem partitionSort_sorts (hd : Decides rank S before) (byEights : Bool) (splits : Nat)
    {ancestor : Option α} (hs : ∀ x ∈ xs, S x)
    (ha : ∀ a ∈ ancestor, S a ∧ ∀ x ∈ xs, rank a ≤ rank x) :
    Sorts rank xs (partitionSort before byEights splits ancestor xs) := by
  induction splits generalizing ancestor xs with
  | zero =>
    unfold partitionSort
    refine .ite (sortBlock_sorts hd byEights hs) ?_
    exact Plan.sort_sorts ⟨hd, fun eager => absurd eager (by simp)⟩ hs
  | succ splits ih =>
    unfold partitionSort
    split
    · exact sortBlock_sorts hd byEights hs
    · next long =>
      have long : 8 ≤ xs.length := Nat.le_trans (by decide) (Nat.le_of_not_le long)
      refine (pivotSuffix_startsIn hd hs long).bind fun suffix starts => ?_
      obtain ⟨pivot, back, rfl⟩ := List.exists_cons_of_ne_nil starts.2
      have whole := List.suffix_iff_eq_append.1 starts.1
      rw [List.length_cons, ← Nat.sub_sub] at whole
      dsimp only
      generalize xs.take (xs.length - back.length - 1) = front at *
      subst whole
      have sp : S pivot := hs pivot (by simp)
      have kept (p : α → Bool) : ∀ x ∈ (front ++ pivot :: back).filter p, S x :=
        fun x hx => hs x (List.mem_filter.1 hx).1
      have follows (p : α → Bool) : ∀ a ∈ ancestor,
          S a ∧ ∀ x ∈ (front ++ pivot :: back).filter p, rank a ≤ rank x :=
        fun a h => ⟨(ha a h).1, fun x hx => (ha a h).2 x (List.mem_filter.1 hx).1⟩
      rw [isRepeated_eq hd (fun a h => (ha a h).1) sp, ok_bind, splitLess_eq hd hs, ok_bind]
      · dsimp only
        split
        · next empty =>
          have least : ∀ x ∈ front ++ pivot :: back, rank pivot ≤ rank x := fun x hx => by
            simpa using List.filter_eq_nil_iff.1 (List.isEmpty_iff.1 empty) x hx
          rw [splitEquivalent_eq hd hs, ok_bind]
          refine (ih (kept _) (follows_none _)).bind fun greater h => .pure ?_
          refine .of_filters (fun k => k ≤ rank pivot) (.of_ascends (equivalent_ascends least)) h ?_
          intro x hx y hy passes fails
          exact (of_decide_eq_true passes).trans (least y hy)
        · have after : ∀ a ∈ some pivot, S a ∧ ∀ x ∈ (front ++ pivot :: back).filter
              fun x => !decide (rank x < rank pivot), rank a ≤ rank x := by
            rintro a ⟨⟩
            refine ⟨sp, fun x hx => ?_⟩
            simpa using (List.mem_filter.1 hx).2
          refine (ih (kept _) after).bind fun others h' => ?_
          refine (ih (kept _) (follows _)).bind fun less h => .pure ?_
          refine .of_filters (fun k => k < rank pivot) h h' ?_
          intro x hx y hy passes fails
          exact (of_decide_eq_true passes).le.trans (not_lt.1 (of_decide_eq_false fails))
      · intro repeated x hx
        cases ancestor with
        | none => cases repeated
        | some a => exact (of_decide_eq_true repeated).trans ((ha a rfl).2 x hx)

-- ---------------------------------------------------------------------------
-- Sorting
-- ---------------------------------------------------------------------------

theorem sortLong_sorts (hd : Decides rank S before) (byEights : Bool) (hs : ∀ x ∈ xs, S x) :
    Sorts rank xs (sortLong before byEights xs) := by
  have scattered (ys : List α) (hy : ∀ y ∈ ys, S y) :
      Sorts rank ys (sortScattered before byEights ys) :=
    partitionSort_sorts hd byEights _ hy (follows_none ys)
  exact Plan.sort_sorts ⟨hd, fun _ ys hy => scattered ys hy⟩ hs

/-- Sorting gives the list to which the items sort by the rank that decides what goes
before. -/
theorem sort_of_decides {lt : Before α} {reverse : Bool}
    (hd : Decides rank S (goesBefore lt reverse)) (byEights : Bool) (hs : ∀ x ∈ xs, S x) :
    ∃ out, sort lt byEights reverse xs = (out, none) ∧ SortsTo rank xs out := by
  unfold sort
  dsimp only
  split
  · obtain ⟨out, run, sorts⟩ := insertAll_sorts hd [] xs (by simp) hs .nil
    exact ⟨out, run, sorts⟩
  · obtain ⟨out, run, sorts⟩ := (sortLong_sorts hd byEights hs).exists_eq_ok
    exact ⟨out, by rw [run], sorts⟩

end ObjectModel.Sorting
