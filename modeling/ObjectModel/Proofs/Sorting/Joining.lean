import ObjectModel.Proofs.Sorting.Merging

/-!
# Blocks and runs sort

A block is sorted by its halves. The runs of a list stand for consecutive
stretches of it, and joining them keeps that, so a plan sorts the whole list.

Main statements: `sortBlock_sorts` and `Plan.sort_sorts`.
-/

namespace ObjectModel.Sorting

variable {α β : Type} [LinearOrder β] {rank : α → β} {S : α → Prop} {before : Before α}
  {xs ys : List α}

-- ---------------------------------------------------------------------------
-- Blocks
-- ---------------------------------------------------------------------------

/-- One comparison sorts a pair. -/
theorem pair_sorts (hd : Decides rank S before) {x y : α} (hx : S x) (hy : S y) :
    ∃ swap, before y x = .ok swap ∧
      ∃ a b, (if swap = true then (y, x) else (x, y)) = (a, b) ∧ S a ∧ S b ∧ rank a ≤ rank b ∧
        SortsTo rank [x, y] [a, b] := by
  refine ⟨_, hd y x hy hx, ?_⟩
  by_cases less : rank y < rank x
  · have single : SortsTo rank ([x] ++ []) [x] := .of_ascends (List.pairwise_singleton ..)
    exact ⟨y, x, by simp [less], hy, hx, less.le,
      single.cons_right (by simpa using less) (by simp)⟩
  · exact ⟨x, y, by simp [less], hx, hy, not_lt.1 less, .of_ascends (by simpa using less)⟩

/-- Of two pairs in order, the least and the greatest item are known first. -/
theorem sortFour_sorts (hd : Decides rank S before) {w x y z : α} (hs : ∀ v ∈ [w, x, y, z], S v) :
    Sorts rank [w, x, y, z] (sortFour before w x y z) := by
  simp only [List.forall_mem_cons] at hs
  obtain ⟨sw, sx, sy, sz, -⟩ := hs
  obtain ⟨first, asked, a, b, pair, sa, sb, ab, sortsAB⟩ := pair_sorts hd sw sx
  obtain ⟨second, asked', c, d, pair', sc, sd, cd, sortsCD⟩ := pair_sorts hd sy sz
  have rearranged {zs : List α} (h : SortsTo rank ([a, b] ++ [c, d]) zs) :
      Sorts rank [w, x, y, z] (pure zs) := .pure (h.parts sortsAB sortsCD)
  unfold sortFour
  rw [asked, ok_bind, pair]
  dsimp only
  rw [asked', ok_bind, pair']
  refine hd.ask sc sa (fun ca => ?_) fun ac => ?_
  · have cb := ca.trans_le ab
    refine hd.ask sd sb (fun db => ?_) fun bd => ?_
    · refine hd.ask sd sa (fun (da : rank d < rank a) => rearranged ?_)
        fun (ad : rank a ≤ rank d) => rearranged ?_
      · refine .cons_right (.cons_right (.of_ascends ?_) ?_ ?_) ?_ ?_ <;> simp [*]
      · refine .cons_right (.cons_left (.cons_right (.of_ascends ?_) ?_ ?_) ?_ ?_) ?_ ?_ <;>
          simp [*]
    · refine hd.ask sb sa (fun ba => absurd ba ab.not_gt) fun _ => rearranged ?_
      have ad := ab.trans bd
      refine .cons_right (.of_ascends ?_) ?_ ?_ <;> simp [*]
  · refine hd.ask sd sb (fun db => ?_) fun bd => ?_
    · have cb := cd.trans_lt db
      have ad := ac.trans cd
      refine hd.ask sd sc (fun dc => absurd dc cd.not_gt) fun _ => rearranged ?_
      refine .cons_left (.cons_right (.cons_right (.of_ascends ?_) ?_ ?_) ?_ ?_) ?_ ?_ <;> simp [*]
    · have ad := ab.trans bd
      refine hd.ask sc sb (fun (cb : rank c < rank b) => rearranged ?_)
        fun (bc : rank b ≤ rank c) => rearranged ?_
      · refine .cons_left (.cons_right (.of_ascends ?_) ?_ ?_) ?_ ?_ <;> simp [*]
      · refine .of_ascends ?_
        simp [*]

theorem sortsTo_of_short (h : xs.length ≤ 1) : SortsTo rank xs xs := by
  refine .of_ascends ?_
  match xs, h with
  | [], _ => exact .nil
  | [x], _ => exact List.pairwise_singleton ..

/-- Four items, or twice four, are sorted; one item is sorted already. -/
theorem presort_sorts (hd : Decides rank S before) (hs : ∀ x ∈ xs, S x)
    (size : xs.length ≤ 1 ∨ xs.length = 4 ∨ xs.length = 8) :
    Sorts rank xs (presort before xs) := by
  unfold presort
  split
  · exact sortFour_sorts hd hs
  · next a b c d e f g h =>
    have hs : ∀ x ∈ [a, b, c, d] ++ [e, f, g, h], S x := hs
    obtain ⟨hs, hs'⟩ := List.forall_mem_append.1 hs
    refine (sortFour_sorts hd hs).bind fun first hf => ?_
    refine (sortFour_sorts hd hs').bind fun second hg => ?_
    have sizes : first.length = 4 ∧ second.length = 4 := ⟨hf.length_eq, hg.length_eq⟩
    exact (mergeEnds_sorts hd (hf.forall_mem hs) (hg.forall_mem hs') hf.ascends hg.ascends
      (by omega) (by omega)).mono fun out ho => ho.parts hf hg
  · next four eight =>
    refine .pure (sortsTo_of_short ?_)
    match xs, size with
    | [], _ | [_], _ => simp
    | [a, b, c, d], _ => exact absurd rfl (four a b c d)
    | [a, b, c, d, e, f, g, h], _ => exact absurd rfl (eight a b c d e f g h)

/-- Either half of a block is long enough to be presorted. -/
theorem presorted_cases (byEights : Bool) (size : Nat) :
    presorted byEights size = 1 ∨ presorted byEights size = 4 ∧ 8 ≤ size ∨
      presorted byEights size = 8 ∧ 16 ≤ size := by
  unfold presorted
  split
  · next h => exact .inr (.inr ⟨rfl, h.2⟩)
  · split
    · next h => exact .inr (.inl ⟨rfl, h⟩)
    · exact .inl rfl

/-- From the first items presorted, insertion goes on to sort the whole list. -/
theorem insertInto_presort_sorts (hd : Decides rank S before) (hs : ∀ x ∈ xs, S x) {width : Nat}
    (size : width = 1 ∨ width = 4 ∧ 4 ≤ xs.length ∨ width = 8 ∧ 8 ≤ xs.length) :
    Succeeds (fun start => Sorts rank xs (insertInto before start (xs.drop width)))
      (presort before (xs.take width)) := by
  have front : ∀ x ∈ xs.take width, S x := fun x hx => hs x (List.mem_of_mem_take hx)
  have back : ∀ x ∈ xs.drop width, S x := fun x hx => hs x (List.mem_of_mem_drop hx)
  refine (presort_sorts hd front (by rw [List.length_take]; omega)).mono fun start h => ?_
  refine (insertInto_sorts hd (h.forall_mem front) back h.ascends).mono fun out h' => ?_
  have whole := h'.part h
  rwa [List.take_append_drop] at whole

theorem sortBlock_sorts (hd : Decides rank S before) (byEights : Bool) (hs : ∀ x ∈ xs, S x) :
    Sorts rank xs (sortBlock before byEights xs) := by
  unfold sortBlock
  split
  · next short => exact .pure (sortsTo_of_short (by omega))
  · rw [List.splitAt_eq]
    have front : ∀ x ∈ xs.take (xs.length / 2), S x := fun x hx => hs x (List.mem_of_mem_take hx)
    have back : ∀ x ∈ xs.drop (xs.length / 2), S x := fun x hx => hs x (List.mem_of_mem_drop hx)
    have size : (xs.take (xs.length / 2)).length = xs.length / 2 := by
      rw [List.length_take]
      omega
    have size' := List.length_drop (i := xs.length / 2) (l := xs)
    have width := presorted_cases byEights xs.length
    refine (insertInto_presort_sorts hd front (by omega)).bind fun start hf => ?_
    refine (insertInto_presort_sorts hd back (by omega)).bind fun start' hg => ?_
    refine hf.bind fun first hx => hg.bind fun second hy => ?_
    have sizes : first.length = _ ∧ second.length = _ := ⟨hx.length_eq, hy.length_eq⟩
    refine (mergeEnds_sorts hd (hx.forall_mem front) (hy.forall_mem back) hx.ascends hy.ascends
      (by omega) (by omega)).mono fun out h => ?_
    have whole := h.parts hx hy
    rwa [List.take_append_drop] at whole

-- ---------------------------------------------------------------------------
-- Runs
-- ---------------------------------------------------------------------------

/-- An item goes on in the direction of a run that ends with another. -/
def GoesOn (rank : α → β) (descending : Bool) (x last : α) : Prop :=
  decide (rank x < rank last) = descending

theorem GoesOn.trans {descending : Bool} {x y z : α} (h : GoesOn rank descending x y)
    (h' : GoesOn rank descending y z) : GoesOn rank descending x z := by
  cases descending with
  | true => exact decide_eq_true ((of_decide_eq_true h).trans (of_decide_eq_true h'))
  | false =>
    have le := not_lt.1 (of_decide_eq_false h)
    have le' := not_lt.1 (of_decide_eq_false h')
    exact decide_eq_false (not_lt.2 (le'.trans le))

theorem growRun_goesOn (hd : Decides rank S before) (descending : Bool) {last : α} {seen : List α}
    (hl : S last) (hs : ∀ x ∈ xs, S x) (run : (last :: seen).Pairwise (GoesOn rank descending)) :
    Succeeds (fun r => ∃ front, front ++ r.2 = xs ∧ r.1 = front.reverse ++ last :: seen ∧
        r.1.Pairwise (GoesOn rank descending))
      (growRun before descending last (last :: seen) xs) := by
  induction xs generalizing last seen with
  | nil => exact .pure ⟨[], rfl, rfl, run⟩
  | cons x xs ih =>
    obtain ⟨sx, hs⟩ := List.forall_mem_cons.1 hs
    rw [growRun, hd x last sx hl, ok_bind]
    by_cases on : GoesOn rank descending x last
    · rw [if_pos (beq_iff_eq.2 on)]
      have longer : (x :: last :: seen).Pairwise (GoesOn rank descending) :=
        List.pairwise_cons.2 ⟨List.forall_mem_cons.2
          ⟨on, fun y hy => on.trans (List.rel_of_pairwise_cons run hy)⟩, run⟩
      refine (ih sx hs longer).mono fun r h => ?_
      obtain ⟨front, hf, hr, run⟩ := h
      exact ⟨x :: front, by rw [List.cons_append, hf], by simp [hr], run⟩
    · rw [if_neg fun h => on (beq_iff_eq.1 h)]
      exact .pure ⟨[], rfl, rfl, run⟩

/-- A run is sorted by turning it around if it descends strictly. -/
theorem naturalRun_sorts (hd : Decides rank S before) (hs : ∀ x ∈ xs, S x) :
    Succeeds (fun r => ∃ front, front ++ r.2 = xs ∧ SortsTo rank front r.1)
      (naturalRun before xs) := by
  unfold naturalRun
  split
  · next x y rest =>
    simp only [List.forall_mem_cons] at hs
    obtain ⟨sx, sy, hs⟩ := hs
    rw [hd y x sy sx, ok_bind]
    have start : [y, x].Pairwise (GoesOn rank (decide (rank y < rank x))) :=
      List.pairwise_pair.2 rfl
    generalize decide (rank y < rank x) = descending at *
    refine (growRun_goesOn hd descending sy hs start).bind fun r h => .pure ?_
    obtain ⟨front, hf, hr, run⟩ := h
    have cut : (x :: y :: front) ++ r.2 = x :: y :: rest := by rw [← hf]; rfl
    have turned : x :: y :: front = r.1.reverse := by simp [hr]
    refine ⟨_, cut, ?_⟩
    rw [turned]
    cases descending with
    | true =>
      have less : r.1.Pairwise (rank · < rank ·) := run.imp of_decide_eq_true
      exact ⟨less.imp le_of_lt, fun k => by
        rw [level_reverse, level_reverse_of_ascends less]
        rfl⟩
    | false =>
      refine .of_ascends (List.pairwise_reverse.2 (run.imp fun h => ?_))
      exact not_lt.1 (of_decide_eq_false h)
  · next short =>
    refine .pure ⟨xs, List.append_nil xs, sortsTo_of_short ?_⟩
    match xs, short with
    | [], _ | [_], _ => simp
    | _ :: _ :: _, short => exact (short _ _ _ rfl).elim

/-- For a list of several items, a run is not empty. -/
theorem shortestRun_pos {size : Nat} (h : 2 ≤ size) : 1 ≤ shortestRun size := by
  unfold shortestRun
  split
  · omega
  · next long =>
    have log : 1 ≤ size.log2 := (Nat.le_log2 (by omega)).2 (by omega)
    have half : 2 ≤ 2 ^ ((1 + size.log2) / 2) := Nat.le_self_pow (by omega) 2
    rw [nearRoot, Nat.one_shiftLeft]
    exact Nat.div_pos (Nat.le_add_right_of_le half) (by decide)

namespace Plan

variable {plan : Plan α}

/-- The plan compares by rank, and sorts the runs that it puts off. -/
structure Sound (rank : α → β) (S : α → Prop) (plan : Plan α) : Prop where
  decides : Decides rank S plan.before
  sortRun : plan.isEager = false → ∀ xs, (∀ x ∈ xs, S x) → Sorts rank xs (plan.sortRun xs)

/-- A run stands for a stretch of the list, sorted or put off. -/
def Holds (plan : Plan α) (rank : α → β) (run : Run α) (xs : List α) : Prop :=
  run.isSorted = true ∧ SortsTo rank xs run.items ∨
    plan.isEager = false ∧ run.isSorted = false ∧ run.items = xs

theorem Holds.length_eq {run : Run α} (h : plan.Holds rank run xs) :
    run.items.length = xs.length := by
  obtain ⟨-, sorted⟩ | ⟨-, -, rfl⟩ := h
  · exact sorted.length_eq
  · rfl

/-- The next run takes at least one item. -/
theorem nextRun_holds (hp : plan.Sound rank S) (hs : ∀ x ∈ xs, S x) {shortest : Nat}
    (remaining : Nat) (positive : 1 ≤ shortest) (more : xs ≠ []) :
    Succeeds (fun r => ∃ front, front ++ r.2 = xs ∧ front ≠ [] ∧ plan.Holds rank r.1 front)
      (plan.nextRun shortest remaining xs) := by
  have size := List.length_pos_of_ne_nil more
  have cut : Succeeds (fun r => ∃ front, front ++ r.2 = xs ∧ front ≠ [] ∧ plan.Holds rank r.1 front)
      (do
        if plan.isEager then
          return (⟨← sortBlock plan.before plan.byEights (xs.take blockLimit), true⟩,
            xs.drop blockLimit)
        else return (⟨xs.take shortest, false⟩, xs.drop shortest) :
          Except Fault (Run α × List α)) := by
    have front (n : Nat) (hn : 1 ≤ n) : xs.take n ≠ [] :=
      List.ne_nil_of_length_pos (by rw [List.length_take]; omega)
    split
    · have block : ∀ x ∈ xs.take blockLimit, S x := fun x hx => hs x (List.mem_of_mem_take hx)
      refine (sortBlock_sorts hp.decides plan.byEights block).bind fun out h => .pure ?_
      exact ⟨xs.take blockLimit, List.take_append_drop .., front _ (by decide), .inl ⟨rfl, h⟩⟩
    · next lazy =>
      exact .pure ⟨xs.take shortest, List.take_append_drop .., front _ positive,
        .inr ⟨by simpa using lazy, rfl, rfl⟩⟩
  unfold nextRun
  refine .ite ?_ cut
  refine (naturalRun_sorts hp.decides hs).bind fun (run, rest) h => ?_
  obtain ⟨front, hf, sorted⟩ := h
  dsimp only at sorted ⊢
  by_cases long : shortest ≤ run.length
  · rw [if_pos long]
    refine .pure ⟨front, hf, ?_, .inl ⟨rfl, sorted⟩⟩
    exact List.ne_nil_of_length_pos (sorted.length_eq ▸ Nat.lt_of_lt_of_le positive long)
  · rw [if_neg long]
    exact cut

theorem sortedItems_sorts (hp : plan.Sound rank S) {run : Run α} (hs : ∀ x ∈ xs, S x)
    (h : plan.Holds rank run xs) : Sorts rank xs (plan.sortedItems run) := by
  obtain ⟨sorted, items⟩ | ⟨lazy, late, rfl⟩ := h
  · rw [sortedItems, if_pos sorted]
    exact .pure items
  · rw [sortedItems, late]
    exact hp.sortRun lazy _ hs

theorem join_holds (hp : plan.Sound rank S) {left right : Run α} (hx : ∀ x ∈ xs, S x)
    (hy : ∀ y ∈ ys, S y) (hl : plan.Holds rank left xs) (hr : plan.Holds rank right ys) :
    Succeeds (fun run => plan.Holds rank run (xs ++ ys)) (plan.join left right) := by
  unfold join
  split
  · refine (sortedItems_sorts hp hx hl).bind fun us hu => ?_
    refine (sortedItems_sorts hp hy hr).bind fun vs hv => ?_
    refine (merge_sorts hp.decides (hu.forall_mem hx) (hv.forall_mem hy) hu.ascends hv.ascends).bind
      fun out h => .pure (.inl ⟨rfl, h.parts hu hv⟩)
  · next late =>
    obtain ⟨sorted, -⟩ | ⟨lazy, -, rfl⟩ := hl
    · exact absurd (by simp [sorted]) late
    · obtain ⟨sorted, -⟩ | ⟨-, -, rfl⟩ := hr
      · exact absurd (by simp [sorted]) late
      · exact .pure (.inr ⟨lazy, rfl, rfl⟩)

/-- The runs before, the nearest first, stand for consecutive stretches. -/
inductive Stacked (plan : Plan α) (rank : α → β) : List (Run α × Nat) → List α → Prop
  | nil : Stacked plan rank [] []
  | cons {run : Run α} {pending : List (Run α × Nat)} {xs ys : List α} (depth : Nat)
      (before : Stacked plan rank pending xs) (here : plan.Holds rank run ys) :
      Stacked plan rank ((run, depth) :: pending) (xs ++ ys)

/-- Joining with the runs before keeps the list; closing to depth 0 leaves no run
before. -/
theorem close_holds (hp : plan.Sound rank S) (depth : Nat) {pending : List (Run α × Nat)}
    {run : Run α} (hx : ∀ x ∈ xs, S x) (hy : ∀ y ∈ ys, S y) (before : Stacked plan rank pending xs)
    (here : plan.Holds rank run ys) :
    Succeeds (fun r => (depth = 0 → r.1 = []) ∧ ∃ us vs, us ++ vs = xs ++ ys ∧
        Stacked plan rank r.1 us ∧ plan.Holds rank r.2 vs)
      (plan.close depth pending run) := by
  induction before generalizing run ys with
  | nil => exact .pure ⟨fun _ => rfl, [], ys, rfl, .nil, here⟩
  | @cons left pending us vs d before left_holds ih =>
    obtain ⟨hu, hv⟩ := List.forall_mem_append.1 hx
    rw [close]
    split
    · refine (join_holds hp hv hy left_holds here).bind fun joined hj => ?_
      rw [List.append_assoc]
      exact ih hu (List.forall_mem_append.2 ⟨hv, hy⟩) hj
    · next deep =>
      refine .pure ⟨fun h => absurd (h ▸ Nat.zero_le d) deep, us ++ vs, ys, rfl, ?_, here⟩
      exact .cons d before left_holds

/-- Every run takes an item, so there is a step for each. -/
theorem joinRuns_holds (hp : plan.Sound rank S) {size : Nat} (several : 2 ≤ size)
    (fuel offset : Nat) (xs : List α) {zs : List α} {pending : List (Run α × Nat)} {run : Run α}
    (hs : ∀ x ∈ xs ++ ys ++ zs, S x) (enough : zs.length ≤ fuel)
    (before : Stacked plan rank pending xs) (here : plan.Holds rank run ys) :
    Succeeds (fun r => plan.Holds rank r (xs ++ ys ++ zs))
      (plan.joinRuns size fuel offset zs pending run) := by
  have finish {xs ys : List α} {pending : List (Run α × Nat)} {run : Run α}
      (hs : ∀ x ∈ xs ++ ys ++ [], S x) (before : Stacked plan rank pending xs)
      (here : plan.Holds rank run ys) : Succeeds (fun r => plan.Holds rank r (xs ++ ys ++ []))
        (do return (← plan.close 0 pending run).2) := by
    rw [List.append_nil] at hs ⊢
    obtain ⟨hx, hy⟩ := List.forall_mem_append.1 hs
    refine (close_holds hp 0 hx hy before here).bind fun (pending', run') hc => .pure ?_
    obtain ⟨empty, us, vs, joined, before, here⟩ := hc
    obtain rfl : pending' = [] := empty rfl
    cases before
    rwa [← joined]
  induction fuel generalizing offset xs ys zs pending run with
  | zero =>
    obtain rfl := List.length_eq_zero_iff.1 (Nat.le_zero.1 enough)
    exact finish hs before here
  | succ fuel ih =>
    obtain ⟨hxy, hz⟩ := List.forall_mem_append.1 hs
    obtain ⟨hx, hy⟩ := List.forall_mem_append.1 hxy
    cases zs with
    | nil => exact finish hs before here
    | cons z zs =>
      rw [joinRuns]
      refine (nextRun_holds hp hz _ (shortestRun_pos several) (by simp)).bind
        fun (next, rest) hn => ?_
      obtain ⟨front, cut, more, hn⟩ := hn
      have size := congrArg List.length cut
      have taken := List.length_pos_of_ne_nil more
      simp only [List.length_append, List.length_cons] at size enough
      refine (close_holds hp _ hx hy before here).bind fun (pending', run') hc => ?_
      obtain ⟨-, us, vs, joined, before, here⟩ := hc
      rw [← joined, ← cut, ← List.append_assoc]
      refine ih _ _ ?_ (by dsimp only; omega) (.cons _ before here) hn
      rwa [joined, List.append_assoc, cut]

theorem sort_sorts (hp : plan.Sound rank S) (hs : ∀ x ∈ xs, S x) :
    Sorts rank xs (plan.sort xs) := by
  unfold sort
  by_cases few : xs.length < 2
  · rw [if_pos few]
    exact .pure (sortsTo_of_short (by omega))
  · rw [if_neg few]
    refine (nextRun_holds hp hs _ (shortestRun_pos (by omega)) ?_).bind fun (run, rest) hn => ?_
    · rintro rfl
      exact few Nat.two_pos
    · obtain ⟨front, cut, -, hn⟩ := hn
      have size := congrArg List.length cut
      simp only [List.length_append] at size
      refine (joinRuns_holds hp (by omega) _ _ [] ?_ (by omega) .nil hn).bind
        fun joined hj => ?_
      · rwa [List.nil_append, cut]
      · rw [List.nil_append, cut] at hj
        exact sortedItems_sorts hp hs hj

end Plan

end ObjectModel.Sorting
