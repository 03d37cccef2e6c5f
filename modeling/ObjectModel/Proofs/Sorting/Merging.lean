import ObjectModel.Proofs.Sorting.Rank

/-!
# Insertion and merging sort

Where the comparison ranks the items, insertion sorts, and merging two sorted
lists sorts them one after the other, from either end and from both.

Main statements: `insertInto_sorts`, `merge_sorts` and `mergeEnds_sorts`.
-/

namespace ObjectModel.Sorting

open OrderDual (toDual)

variable {α β : Type} [LinearOrder β] {rank : α → β} {S : α → Prop} {before : Before α}
  {x y : α} {xs ys zs : List α}

/-- A computation sorts a list. -/
abbrev Sorts (rank : α → β) (xs : List α) (a : Except Fault (List α)) : Prop :=
  Succeeds (SortsTo rank xs) a

-- ---------------------------------------------------------------------------
-- Insertion
-- ---------------------------------------------------------------------------

/-- The items before are given the last one first, so they sort by the order turned
around, and the item that is moved comes first. -/
theorem insertItem_sorts (hd : Decides rank S before) {ps : List α} (hx : S x)
    (hp : ∀ p ∈ ps, S p) (descends : ps.Pairwise fun p q => rank q ≤ rank p) :
    ∃ out, insertItem before x ps = (out, none) ∧ SortsTo (toDual ∘ rank) (x :: ps) out := by
  induction ps with
  | nil => exact ⟨[x], rfl, .of_ascends (List.pairwise_singleton ..)⟩
  | cons p ps ih =>
    obtain ⟨greatest, rest⟩ := List.pairwise_cons.1 descends
    obtain ⟨sp, hp⟩ := List.forall_mem_cons.1 hp
    by_cases less : rank x < rank p
    · obtain ⟨out, run, sorts⟩ := ih hp rest
      refine ⟨p :: out, by rw [insertItem, hd x p hx sp, decide_eq_true less, run], ?_⟩
      have sorts : SortsTo (toDual ∘ rank) ([x] ++ ps) out := sorts
      exact sorts.cons_right (by simpa using less) greatest
    · refine ⟨x :: p :: ps, by rw [insertItem, hd x p hx sp, decide_eq_false less], ?_⟩
      have le : rank p ≤ rank x := not_lt.1 less
      exact .of_ascends (List.pairwise_cons.2 ⟨List.forall_mem_cons.2
        ⟨le, fun q hq => (greatest q hq).trans le⟩, descends⟩)

/-- Insertion extends a sorted list, which is given the last item first. -/
theorem insertAll_sorts (hd : Decides rank S before) (ps xs : List α) (hp : ∀ p ∈ ps, S p)
    (hx : ∀ x ∈ xs, S x) (descends : ps.Pairwise fun p q => rank q ≤ rank p) :
    ∃ out, insertAll before ps xs = (out, none) ∧ SortsTo rank (ps.reverse ++ xs) out := by
  induction xs generalizing ps with
  | nil =>
    refine ⟨ps.reverse, rfl, ?_⟩
    rw [List.append_nil]
    exact .of_ascends (List.pairwise_reverse.2 descends)
  | cons x xs ih =>
    obtain ⟨sx, hx⟩ := List.forall_mem_cons.1 hx
    obtain ⟨inserted, run, sorts⟩ := insertItem_sorts hd sx hp descends
    have all := sorts.forall_mem (List.forall_mem_cons.2 ⟨sx, hp⟩)
    obtain ⟨out, rest, sorts'⟩ := ih inserted all hx sorts.ascends
    refine ⟨out, by rw [insertAll, run]; exact rest, ?_⟩
    refine sorts'.congr fun k => ?_
    rw [level_append, sorts.of_turn.level_eq, ← level_append, List.reverse_cons, List.append_assoc]
    rfl

theorem insertInto_sorts (hd : Decides rank S before) {rest : List α} (hx : ∀ x ∈ xs, S x)
    (hr : ∀ x ∈ rest, S x) (ascends : xs.Pairwise (rank · ≤ rank ·)) :
    Sorts rank (xs ++ rest) (insertInto before xs rest) := by
  obtain ⟨out, run, sorts⟩ := insertAll_sorts hd xs.reverse rest (by simpa using hx) hr
    (List.pairwise_reverse.2 ascends)
  rw [insertInto, run]
  rwa [List.reverse_reverse] at sorts

/-- Every list sorts to some list. -/
theorem exists_sortsTo (rank : α → β) (xs : List α) : ∃ ys, SortsTo rank xs ys := by
  have decides : Decides rank (fun _ => True) fun x y => .ok (decide (rank x < rank y)) :=
    fun _ _ _ _ => rfl
  obtain ⟨out, -, sorts⟩ := insertAll_sorts decides [] xs (by simp) (by simp) .nil
  exact ⟨out, sorts⟩

-- ---------------------------------------------------------------------------
-- Merging from one end
-- ---------------------------------------------------------------------------

/-- What is merged stands after what has been merged before. -/
theorem mergeUp_sorts (hd : Decides rank S before) (merged : List α) (hx : ∀ x ∈ xs, S x)
    (hy : ∀ y ∈ ys, S y) (ax : xs.Pairwise (rank · ≤ rank ·)) (ay : ys.Pairwise (rank · ≤ rank ·)) :
    Succeeds (fun out => ∃ zs, out = merged.reverse ++ zs ∧ SortsTo rank (xs ++ ys) zs)
      (mergeUp before merged xs ys) := by
  fun_induction mergeUp before merged xs ys with
  | case1 merged ys => exact .pure ⟨ys, List.reverseAux_eq .., .of_ascends ay⟩
  | case2 merged x xs =>
    refine .pure ⟨x :: xs, List.reverseAux_eq .., ?_⟩
    rw [List.append_nil]
    exact .of_ascends ax
  | case3 merged x xs y ys ihY ihX =>
    obtain ⟨leastX, restX⟩ := List.pairwise_cons.1 ax
    obtain ⟨leastY, restY⟩ := List.pairwise_cons.1 ay
    obtain ⟨sx, hxs⟩ := List.forall_mem_cons.1 hx
    obtain ⟨sy, hys⟩ := List.forall_mem_cons.1 hy
    refine hd.ask sy sx (fun less => ?_) fun le => ?_
    · refine (ihY hx hys ax restY).mono fun out h => ?_
      obtain ⟨zs, rfl, sorts⟩ := h
      refine ⟨y :: zs, by simp, sorts.cons_right (List.forall_mem_cons.2
        ⟨less, fun z hz => less.trans_le (leastX z hz)⟩) leastY⟩
    · refine (ihX hxs hy restX ay).mono fun out h => ?_
      obtain ⟨zs, rfl, sorts⟩ := h
      refine ⟨x :: zs, by simp, sorts.cons_left leastX (List.forall_mem_cons.2
        ⟨le, fun z hz => le.trans (leastY z hz)⟩)⟩

/-- From the end, items are merged by the order turned around, in which the second
list is the first. -/
theorem mergeDown_sorts (hd : Decides rank S before) (merged : List α) (hx : ∀ x ∈ xs, S x)
    (hy : ∀ y ∈ ys, S y) (dx : xs.Pairwise fun x y => rank y ≤ rank x)
    (dy : ys.Pairwise fun x y => rank y ≤ rank x) :
    Succeeds (fun out => ∃ zs, out = zs.reverse ++ merged ∧ SortsTo (toDual ∘ rank) (ys ++ xs) zs)
      (mergeDown before merged xs ys) := by
  fun_induction mergeDown before merged xs ys with
  | case1 merged ys =>
    refine .pure ⟨ys, List.reverseAux_eq .., ?_⟩
    rw [List.append_nil]
    exact .of_ascends dy
  | case2 merged x xs => exact .pure ⟨x :: xs, List.reverseAux_eq .., .of_ascends dx⟩
  | case3 merged x xs y ys ihX ihY =>
    obtain ⟨greatestX, restX⟩ := List.pairwise_cons.1 dx
    obtain ⟨greatestY, restY⟩ := List.pairwise_cons.1 dy
    obtain ⟨sx, hxs⟩ := List.forall_mem_cons.1 hx
    obtain ⟨sy, hys⟩ := List.forall_mem_cons.1 hy
    refine hd.ask sy sx (fun less => ?_) fun le => ?_
    · refine (ihX hxs hy restX dy).mono fun out h => ?_
      obtain ⟨zs, rfl, sorts⟩ := h
      refine ⟨x :: zs, by simp, sorts.cons_right (List.forall_mem_cons.2
        ⟨less, fun z hz => (greatestY z hz).trans_lt less⟩) greatestX⟩
    · refine (ihY hx hys dx restY).mono fun out h => ?_
      obtain ⟨zs, rfl, sorts⟩ := h
      refine ⟨y :: zs, by simp, sorts.cons_left greatestY (List.forall_mem_cons.2
        ⟨le, fun z hz => (greatestX z hz).trans le⟩)⟩

theorem merge_sorts (hd : Decides rank S before) (hx : ∀ x ∈ xs, S x) (hy : ∀ y ∈ ys, S y)
    (ax : xs.Pairwise (rank · ≤ rank ·)) (ay : ys.Pairwise (rank · ≤ rank ·)) :
    Sorts rank (xs ++ ys) (merge before xs ys) := by
  refine .ite ?_ ?_
  · refine (mergeUp_sorts hd [] hx hy ax ay).mono fun out h => ?_
    obtain ⟨zs, rfl, sorts⟩ := h
    exact sorts
  · have hx : ∀ x ∈ xs.reverse, S x := by simpa using hx
    have hy : ∀ y ∈ ys.reverse, S y := by simpa using hy
    refine (mergeDown_sorts hd [] hx hy (List.pairwise_reverse.2 ax)
      (List.pairwise_reverse.2 ay)).mono fun out h => ?_
    obtain ⟨zs, rfl, sorts⟩ := h
    simpa using sorts.of_turn

-- ---------------------------------------------------------------------------
-- Merging from both ends
-- ---------------------------------------------------------------------------

/-- How far two lists are merged from the front: `taken`, the last item first,
starts the list that they sort to, and is made of a front of either. -/
structure Front (rank : α → β) (xs ys zs taken left right : List α) : Prop where
  ascendsLeft : left.Pairwise (rank · ≤ rank ·)
  ascendsRight : right.Pairwise (rank · ≤ rank ·)
  fromLeft : ∃ us, xs = us ++ left ∧ ∀ u ∈ us, ∀ y ∈ right, rank u ≤ rank y
  fromRight : ∃ vs, ys = vs ++ right ∧ ∀ v ∈ vs, ∀ x ∈ left, rank v < rank x
  starts : ∃ ws, zs = taken.reverse ++ ws ∧ SortsTo rank (left ++ right) ws

namespace Front

variable {taken left right : List α}

theorem start (ax : xs.Pairwise (rank · ≤ rank ·)) (ay : ys.Pairwise (rank · ≤ rank ·))
    (hz : SortsTo rank (xs ++ ys) zs) : Front rank xs ys zs [] xs ys :=
  ⟨ax, ay, ⟨[], rfl, by simp⟩, ⟨[], rfl, by simp⟩, ⟨zs, rfl, hz⟩⟩

theorem takeLeft (h : Front rank xs ys zs taken (x :: left) (y :: right)) (le : rank x ≤ rank y) :
    Front rank xs ys zs (x :: taken) left (y :: right) := by
  obtain ⟨ax, ay, ⟨us, rfl, hu⟩, ⟨vs, rfl, hv⟩, ws, rfl, hw⟩ := h
  obtain ⟨leastX, restX⟩ := List.pairwise_cons.1 ax
  have least : ∀ z ∈ y :: right, rank x ≤ rank z := List.forall_mem_cons.2
    ⟨le, fun z hz => le.trans (List.rel_of_pairwise_cons ay hz)⟩
  refine ⟨restX, ay, ⟨us ++ [x], by simp, ?_⟩, ⟨vs, rfl, fun v hv' x' hx' =>
    hv v hv' x' (List.mem_cons_of_mem x hx')⟩, ?_⟩
  · simp only [List.forall_mem_append, List.forall_mem_singleton]
    exact ⟨hu, least⟩
  · obtain ⟨ws', sorts⟩ := exists_sortsTo rank (left ++ y :: right)
    obtain rfl := hw.unique (sorts.cons_left leastX least)
    exact ⟨ws', by simp, sorts⟩

theorem takeRight (h : Front rank xs ys zs taken (x :: left) (y :: right))
    (less : rank y < rank x) : Front rank xs ys zs (y :: taken) (x :: left) right := by
  obtain ⟨ax, ay, ⟨us, rfl, hu⟩, ⟨vs, rfl, hv⟩, ws, rfl, hw⟩ := h
  obtain ⟨leastY, restY⟩ := List.pairwise_cons.1 ay
  have least : ∀ z ∈ x :: left, rank y < rank z := List.forall_mem_cons.2
    ⟨less, fun z hz => less.trans_le (List.rel_of_pairwise_cons ax hz)⟩
  refine ⟨ax, restY, ⟨us, rfl, fun u hu' y' hy' => hu u hu' y' (List.mem_cons_of_mem y hy')⟩,
    ⟨vs ++ [y], by simp, ?_⟩, ?_⟩
  · simp only [List.forall_mem_append, List.forall_mem_singleton]
    exact ⟨hv, least⟩
  · obtain ⟨ws', sorts⟩ := exists_sortsTo rank (x :: left ++ right)
    obtain rfl := hw.unique (sorts.cons_right least leastY)
    exact ⟨ws', by simp, sorts⟩

theorem suffix_left (h : Front rank xs ys zs taken left right) : left <:+ xs :=
  let ⟨us, hu, _⟩ := h.fromLeft
  ⟨us, hu.symm⟩

theorem suffix_right (h : Front rank xs ys zs taken left right) : right <:+ ys :=
  let ⟨vs, hv, _⟩ := h.fromRight
  ⟨vs, hv.symm⟩

theorem length_eq (h : Front rank xs ys zs taken left right) :
    zs.length = taken.length + left.length + right.length := by
  obtain ⟨-, -, -, -, ws, rfl, hw⟩ := h
  simp [hw.length_eq, Nat.add_assoc]

end Front

/-- A front of a list and an end of it that together are longer have an item in
common. -/
theorem exists_mem_of_overlap {as bs cs ds : List α} (h : as ++ bs = cs ++ ds)
    (overlap : cs.length < as.length) : ∃ z ∈ as, z ∈ ds := by
  obtain ⟨ts, rfl, rfl⟩ | ⟨ts, rfl, rfl⟩ := List.append_eq_append_iff.1 h
  · rw [List.length_append] at overlap
    omega
  · cases ts with
    | nil =>
      rw [List.append_nil] at overlap
      exact absurd overlap (Nat.lt_irrefl _)
    | cons t ts => exact ⟨t, by simp, by simp⟩

/-- The back of two lists is their front in the order turned around. -/
abbrev Back (rank : α → β) (xs ys zs taken left right : List α) : Prop :=
  Front (toDual ∘ rank) ys.reverse xs.reverse zs.reverse taken right left

/-- If the front and the back had taken an item of one list both, they would have
left one of the other list between them, which the two rank differently. -/
theorem length_le_of_front_back {taken left right takenBack leftBack rightBack : List α}
    (front : Front rank xs ys zs taken left right)
    (back : Back rank xs ys zs takenBack leftBack rightBack)
    (enough : xs.length + ys.length ≤
      left.length + leftBack.length + (right.length + rightBack.length)) :
    xs.length ≤ left.length + leftBack.length ∧ ys.length ≤ right.length + rightBack.length := by
  obtain ⟨-, -, ⟨us, hu, leU⟩, ⟨vs, hv, ltV⟩, -⟩ := front
  obtain ⟨-, -, ⟨vs', hv', leV⟩, ⟨us', hu', ltU⟩, -⟩ := back
  have left : us ++ left = leftBack.reverse ++ us'.reverse := by
    rw [← hu, ← List.reverse_append, ← hu', List.reverse_reverse]
  have right : vs ++ right = rightBack.reverse ++ vs'.reverse := by
    rw [← hv, ← List.reverse_append, ← hv', List.reverse_reverse]
  have countLeft := congrArg List.length left
  have countRight := congrArg List.length right
  have countXs := congrArg List.length hu
  have countYs := congrArg List.length hv
  simp only [List.length_append, List.length_reverse] at countLeft countRight countXs countYs
  constructor
  · by_contra few
    obtain ⟨u, hu, hu'⟩ := exists_mem_of_overlap left (by simp; omega)
    obtain ⟨y, hy', hy⟩ := exists_mem_of_overlap right.symm (by simp; omega)
    have le : rank u ≤ rank y := leU u hu y hy
    have lt : rank y < rank u := ltU u (by simpa using hu') y (by simpa using hy')
    exact lt.not_ge le
  · by_contra few
    obtain ⟨v, hv, hv'⟩ := exists_mem_of_overlap right (by simp; omega)
    obtain ⟨x, hx', hx⟩ := exists_mem_of_overlap left.symm (by simp; omega)
    have lt : rank v < rank x := ltV v hv x hx
    have le : rank x ≤ rank v := leV v (by simpa using hv') x (by simpa using hx')
    exact lt.not_ge le

/-- How far the ends of two lists have been merged. -/
structure Ends.Sorts (rank : α → β) (xs ys zs : List α) (m n : Nat) (e : Ends α) : Prop where
  front : Front rank xs ys zs e.taken e.left e.right
  back : Back rank xs ys zs e.takenBack e.leftBack e.rightBack
  count : e.taken.length = m
  countBack : e.takenBack.length = n

namespace Ends

variable {m n : Nat} {e : Ends α}

theorem takeFront_sorts (hd : Decides rank S before) (hx : ∀ x ∈ xs, S x) (hy : ∀ y ∈ ys, S y)
    (hz : zs.length = xs.length + ys.length) (he : e.Sorts rank xs ys zs m n) (hmx : m < xs.length)
    (hmy : m < ys.length) :
    Succeeds (Ends.Sorts rank xs ys zs (m + 1) n) (e.takeFront before) := by
  obtain ⟨taken, takenBack, left, right, leftBack, rightBack⟩ := e
  obtain ⟨front, back, rfl, rfl⟩ := he
  have size := front.length_eq
  have sizeLeft := front.suffix_left.length_le
  have sizeRight := front.suffix_right.length_le
  dsimp only at size sizeLeft sizeRight hmx hmy front back
  obtain ⟨x, left, rfl⟩ := List.exists_cons_of_length_pos (l := left) (by omega)
  obtain ⟨y, right, rfl⟩ := List.exists_cons_of_length_pos (l := right) (by omega)
  have sx : S x := hx x (front.suffix_left.subset List.mem_cons_self)
  have sy : S y := hy y (front.suffix_right.subset List.mem_cons_self)
  refine hd.ask sy sx (fun less => ?_) fun le => ?_
  · exact .pure ⟨front.takeRight less, back, rfl, rfl⟩
  · exact .pure ⟨front.takeLeft le, back, rfl, rfl⟩

theorem takeBack_sorts (hd : Decides rank S before) (hx : ∀ x ∈ xs, S x) (hy : ∀ y ∈ ys, S y)
    (hz : zs.length = xs.length + ys.length) (he : e.Sorts rank xs ys zs m n) (hnx : n < xs.length)
    (hny : n < ys.length) :
    Succeeds (Ends.Sorts rank xs ys zs m (n + 1)) (e.takeBack before) := by
  obtain ⟨taken, takenBack, left, right, leftBack, rightBack⟩ := e
  obtain ⟨front, back, rfl, rfl⟩ := he
  have size := back.length_eq
  have sizeLeft := back.suffix_right.length_le
  have sizeRight := back.suffix_left.length_le
  simp only [List.length_reverse] at size sizeLeft sizeRight hnx hny front back
  obtain ⟨x, leftBack, rfl⟩ := List.exists_cons_of_length_pos (l := leftBack) (by omega)
  obtain ⟨y, rightBack, rfl⟩ := List.exists_cons_of_length_pos (l := rightBack) (by omega)
  have sx : S x := hx x (List.mem_reverse.1 (back.suffix_right.subset List.mem_cons_self))
  have sy : S y := hy y (List.mem_reverse.1 (back.suffix_left.subset List.mem_cons_self))
  refine hd.ask sy sx (fun less => ?_) fun le => ?_
  · exact .pure ⟨front, back.takeRight less, rfl, rfl⟩
  · exact .pure ⟨front, back.takeLeft le, rfl, rfl⟩

/-- While neither list has been taken whole, every step takes an item at both ends. -/
theorem steps_sorts (hd : Decides rank S before) (hx : ∀ x ∈ xs, S x) (hy : ∀ y ∈ ys, S y)
    (hz : zs.length = xs.length + ys.length) (count : Nat) (he : e.Sorts rank xs ys zs n n)
    (hnx : n + count ≤ xs.length) (hny : n + count ≤ ys.length) :
    Succeeds (Ends.Sorts rank xs ys zs (n + count) (n + count)) (Ends.steps before count e) := by
  induction count generalizing n e with
  | zero => exact .pure he
  | succ count ih =>
    have step : Succeeds (Ends.Sorts rank xs ys zs (n + 1) (n + 1)) (e.step before) :=
      (takeFront_sorts hd hx hy hz he (by omega) (by omega)).bind fun e he =>
        takeBack_sorts hd hx hy hz he (by omega) (by omega)
    rw [← Nat.add_assoc, Nat.add_right_comm] at *
    exact step.bind fun e he => ih he hnx hny

/-- What the ends have taken is the front and the back of the sorted list. -/
theorem Sorts.exists_between (he : e.Sorts rank xs ys zs m n) (short : m + n ≤ zs.length) :
    ∃ mid, zs = e.taken.reverse ++ (mid ++ e.takenBack) := by
  obtain ⟨front, back, rfl, rfl⟩ := he
  obtain ⟨ws, starts, -⟩ := front.starts
  obtain ⟨ws', ends, -⟩ := back.starts
  have ends : e.takenBack <:+ zs :=
    ⟨ws'.reverse, by simpa using (congrArg List.reverse ends).symm⟩
  have size := congrArg List.length starts
  rw [List.length_append, List.length_reverse] at size
  obtain ⟨mid, rfl⟩ : e.takenBack <:+ ws :=
    List.suffix_of_suffix_length_le ends ⟨e.taken.reverse, starts.symm⟩ (by omega)
  exact ⟨mid, starts⟩

/-- After as many steps as the first list has items the ends have met, and what lies
between them is all that neither has taken. -/
theorem Sorts.length_between (he : e.Sorts rank xs ys zs xs.length xs.length)
    (hz : zs.length = xs.length + ys.length) (atLeast : xs.length ≤ ys.length) :
    (e.left.take (e.left.length + e.leftBack.length - xs.length) ++
      e.right.take (e.right.length + e.rightBack.length - ys.length)).length + xs.length =
      ys.length := by
  obtain ⟨front, back, count, countBack⟩ := he
  have size := front.length_eq
  have sizeBack := back.length_eq
  have sizeLeft := front.suffix_left.length_le
  have sizeRight := front.suffix_right.length_le
  have sizeLeftBack := back.suffix_right.length_le
  have sizeRightBack := back.suffix_left.length_le
  simp only [List.length_reverse] at sizeBack sizeLeftBack sizeRightBack
  have meet := length_le_of_front_back front back (by omega)
  simp only [List.length_append, List.length_take]
  omega

end Ends

/-- Two lists with the same front and the same back, of the same items, are the
same if at most one item is between. -/
theorem eq_of_perm_between {front back as bs : List α}
    (h : (front ++ (as ++ back)).Perm (front ++ (bs ++ back))) (few : bs.length ≤ 1) : as = bs := by
  have inner : as.Perm bs :=
    (List.perm_append_right_iff back).1 ((List.perm_append_left_iff front).1 h)
  match bs, few with
  | [], _ => exact inner.eq_nil
  | [b], _ => exact List.perm_singleton.1 inner

/-- Merging from both ends, neither end takes more than half of the items, so that
the ends meet where the two lists together are cut in halves. -/
theorem mergeEnds_sorts (hd : Decides rank S before) (hx : ∀ x ∈ xs, S x) (hy : ∀ y ∈ ys, S y)
    (ax : xs.Pairwise (rank · ≤ rank ·)) (ay : ys.Pairwise (rank · ≤ rank ·))
    (atLeast : xs.length ≤ ys.length) (atMost : ys.length ≤ xs.length + 1) :
    Sorts rank (xs ++ ys) (mergeEnds before xs ys) := by
  obtain ⟨zs, hz⟩ := exists_sortsTo rank (xs ++ ys)
  have size := hz.length_eq
  rw [List.length_append] at size
  have start : Ends.Sorts rank xs ys zs 0 0 ⟨[], [], xs, ys, xs.reverse, ys.reverse⟩ :=
    ⟨.start ax ay hz, .start (List.pairwise_reverse.2 ay) (List.pairwise_reverse.2 ax)
      (by simpa using hz.turn), rfl, rfl⟩
  obtain ⟨e, run, he⟩ := (Ends.steps_sorts hd hx hy size xs.length start (by omega)
    (by omega)).exists_eq_ok
  rw [Nat.zero_add] at he
  have between := he.length_between size atLeast
  obtain ⟨mid, rfl⟩ := he.exists_between (by omega)
  have perm : Rearranges (fun _ => True) (xs ++ ys) (mergeEnds before xs ys) :=
    mergeEnds_rearranges (fun _ _ _ _ => trivial) xs ys
  unfold mergeEnds at perm ⊢
  rw [run, ok_bind] at perm ⊢
  dsimp only at perm ⊢
  generalize e.left.take _ ++ e.right.take _ = found at between perm ⊢
  have sizes := And.intro he.count he.countBack
  simp only [List.length_append, List.length_reverse] at size
  rw [if_pos (by simp only [List.reverseAux_eq, List.length_append, List.length_reverse]; omega),
    List.reverseAux_eq] at perm ⊢
  rw [eq_of_perm_between (List.Perm.trans perm hz.perm.symm) (by omega)]
  exact .pure hz

end ObjectModel.Sorting
