import Mathlib.Data.List.Basic
import ObjectModel.Sorting

/-!
# Sorting rearranges

Whatever the comparison answers, and whether or not it fails, the outcome of
sorting has the items of the input, each as often as the input has it. A failure
is one of the comparison.

Main statements: `sort_perm` and `blame_of_sort`.
-/

namespace ObjectModel.Sorting

variable {α β γ : Type}

-- ---------------------------------------------------------------------------
-- Outcomes
-- ---------------------------------------------------------------------------

/-- The value of a computation satisfies `Q`, and its fault is one to blame. -/
def Outcome (blame : Fault → Prop) (Q : β → Prop) : Except Fault β → Prop
  | .ok x => Q x
  | .error f => blame f

/-- All faults of the comparison are to blame. -/
def Blames (blame : Fault → Prop) (before : Before α) : Prop :=
  ∀ x y f, before x y = .error f → blame f

namespace Outcome

variable {blame : Fault → Prop} {Q : β → Prop} {R : γ → Prop}

theorem pure {x : β} (h : Q x) : Outcome blame Q (pure x) := h

theorem bind {a : Except Fault β} {f : β → Except Fault γ} (ha : Outcome blame Q a)
    (hf : ∀ x, Q x → Outcome blame R (f x)) : Outcome blame R (a >>= f) := by
  cases a with
  | ok x => exact hf x ha
  | error f => exact ha

theorem mono {Q' : β → Prop} {a : Except Fault β} (ha : Outcome blame Q a)
    (h : ∀ x, Q x → Q' x) : Outcome blame Q' a := by
  cases a with
  | ok x => exact h x ha
  | error f => exact ha

theorem test {before : Before α} (hb : Blames blame before) (x y : α) :
    Outcome blame (fun _ => True) (before x y) := by
  cases h : before x y with
  | ok answer => trivial
  | error e => exact hb x y e h

/-- Asking the comparison says nothing about the items. -/
theorem ask {before : Before α} (hb : Blames blame before) {x y : α} {f : Bool → Except Fault γ}
    (hf : ∀ answer, Outcome blame R (f answer)) : Outcome blame R (before x y >>= f) :=
  (test hb x y).bind fun answer _ => hf answer

theorem ite {p : Prop} [Decidable p] {a b : Except Fault β} (ha : Outcome blame Q a)
    (hb : Outcome blame Q b) : Outcome blame Q (if p then a else b) := by
  split
  · exact ha
  · exact hb

end Outcome

abbrev Rearranges (blame : Fault → Prop) (xs : List α) (a : Except Fault (List α)) : Prop :=
  Outcome blame (·.Perm xs) a

theorem blames_goesBefore {blame : Fault → Prop} {lt : α → α → Except Fault Bool}
    (hl : Blames blame lt) (reverse : Bool) : Blames blame (goesBefore lt reverse) := by
  intro x y f h
  have outcome : Outcome blame (fun _ => True) (goesBefore lt reverse x y) :=
    .ask hl fun _ => .ite (.pure trivial) (.ask hl fun _ => .ite (.pure trivial) (.pure trivial))
  rwa [h] at outcome

variable {blame : Fault → Prop} {before : Before α} {xs ys : List α}

-- ---------------------------------------------------------------------------
-- Insertion
-- ---------------------------------------------------------------------------

theorem insertItem_perm (before : Before α) (x : α) (ps : List α) :
    (insertItem before x ps).1.Perm (x :: ps) := by
  induction ps with
  | nil => exact .refl _
  | cons p ps ih =>
    rw [insertItem]
    split
    · exact (ih.cons p).trans (.swap ..)
    · exact .refl _
    · exact .refl _

theorem blame_of_insertItem (hb : Blames blame before) {x : α} {ps : List α} {f : Fault}
    (h : (insertItem before x ps).2 = some f) : blame f := by
  induction ps with
  | nil => cases h
  | cons p ps ih =>
    rw [insertItem] at h
    split at h
    · exact ih h
    · cases h
    · next e he =>
      cases h
      exact hb x p f he

theorem insertAll_perm (before : Before α) (sorted xs : List α) :
    (insertAll before sorted xs).1.Perm (sorted ++ xs) := by
  induction xs generalizing sorted with
  | nil =>
    rw [List.append_nil]
    exact sorted.reverse_perm
  | cons x xs ih =>
    have here := insertItem_perm before x sorted
    rw [insertAll]
    split
    · next inserted he =>
      rw [he] at here
      exact (ih inserted).trans ((here.append_right xs).trans List.perm_middle.symm)
    · next inserted f he =>
      rw [he] at here
      have : inserted.reverse.Perm (x :: sorted) := inserted.reverse_perm.trans here
      exact (this.append_right xs).trans List.perm_middle.symm

theorem blame_of_insertAll (hb : Blames blame before) {sorted xs : List α} {f : Fault}
    (h : (insertAll before sorted xs).2 = some f) : blame f := by
  induction xs generalizing sorted with
  | nil => cases h
  | cons x xs ih =>
    rw [insertAll] at h
    split at h
    · exact ih h
    · next inserted e he =>
      cases h
      exact blame_of_insertItem hb (congrArg Prod.snd he)

theorem insertInto_rearranges (hb : Blames blame before) (sorted rest : List α) :
    Rearranges blame (sorted ++ rest) (insertInto before sorted rest) := by
  have perm := insertAll_perm before sorted.reverse rest
  unfold insertInto
  split
  · next out he =>
    rw [he] at perm
    exact perm.trans (sorted.reverse_perm.append_right rest)
  · next out f he => exact blame_of_insertAll hb (congrArg Prod.snd he)

-- ---------------------------------------------------------------------------
-- Merging
-- ---------------------------------------------------------------------------

/-- Moving the first item of either list to those that are merged. -/
theorem perm_moved_left (x : α) (merged xs ys : List α) :
    (x :: merged ++ (xs ++ ys)).Perm (merged ++ (x :: xs ++ ys)) := List.perm_middle.symm

theorem perm_moved_right (y : α) (merged xs ys : List α) :
    (y :: merged ++ (xs ++ ys)).Perm (merged ++ (xs ++ y :: ys)) := by
  rw [← List.append_assoc merged, ← List.append_assoc, List.cons_append]
  exact List.perm_middle.symm

theorem perm_reverseAux (xs ys : List α) : (xs.reverseAux ys).Perm (xs ++ ys) := by
  rw [List.reverseAux_eq]
  exact xs.reverse_perm.append_right ys

theorem mergeUp_rearranges (hb : Blames blame before) (merged xs ys : List α) :
    Rearranges blame (merged ++ (xs ++ ys)) (mergeUp before merged xs ys) := by
  fun_induction mergeUp before merged xs ys with
  | case1 merged ys => exact .pure (perm_reverseAux merged ys)
  | case2 merged x xs =>
    refine .pure ?_
    rw [List.append_nil]
    exact perm_reverseAux merged (x :: xs)
  | case3 merged x xs y ys ihY ihX =>
    refine .ask hb fun _ => .ite ?_ ?_
    · exact ihY.mono fun out h => h.trans (perm_moved_right y merged (x :: xs) ys)
    · exact ihX.mono fun out h => h.trans (perm_moved_left x merged xs (y :: ys))

theorem mergeDown_rearranges (hb : Blames blame before) (merged xs ys : List α) :
    Rearranges blame (merged ++ (xs ++ ys)) (mergeDown before merged xs ys) := by
  fun_induction mergeDown before merged xs ys with
  | case1 merged ys => exact .pure ((perm_reverseAux ys merged).trans List.perm_append_comm)
  | case2 merged x xs =>
    refine .pure ?_
    rw [List.append_nil]
    exact (perm_reverseAux (x :: xs) merged).trans List.perm_append_comm
  | case3 merged x xs y ys ihX ihY =>
    refine .ask hb fun _ => .ite ?_ ?_
    · exact ihX.mono fun out h => h.trans (perm_moved_left x merged xs (y :: ys))
    · exact ihY.mono fun out h => h.trans (perm_moved_right y merged (x :: xs) ys)

theorem merge_rearranges (hb : Blames blame before) (xs ys : List α) :
    Rearranges blame (xs ++ ys) (merge before xs ys) := by
  unfold merge
  split
  · exact mergeUp_rearranges hb [] xs ys
  · exact (mergeDown_rearranges hb [] xs.reverse ys.reverse).mono fun out h =>
      h.trans (xs.reverse_perm.append ys.reverse_perm)

/-- The ends of two lists that are merged: suffixes of the lists and of the
lists turned around, and what has been taken from the front and from the end. -/
structure Ends.Of (xs ys : List α) (e : Ends α) : Prop where
  left : e.left <:+ xs
  right : e.right <:+ ys
  leftBack : e.leftBack <:+ xs.reverse
  rightBack : e.rightBack <:+ ys.reverse
  taken : (e.taken ++ (e.left ++ e.right)).Perm (xs ++ ys)
  takenBack : (e.takenBack ++ (e.leftBack ++ e.rightBack)).Perm (xs ++ ys)

namespace Ends

theorem suffix_of_cons {x : α} {zs : List α} (h : x :: zs <:+ xs) : zs <:+ xs :=
  (List.suffix_cons x zs).trans h

theorem takeFront_of {e : Ends α} (he : e.Of xs ys) (hb : Blames blame before) :
    Outcome blame (·.Of xs ys) (e.takeFront before) := by
  unfold takeFront
  split
  · next x xs' y ys' hl hr =>
    obtain ⟨left, right, leftBack, rightBack, taken, takenBack⟩ := he
    rw [hl, hr] at taken
    refine .ask hb fun _ => .ite (.pure ?_) (.pure ?_)
    · refine ⟨left, suffix_of_cons (hr ▸ right), leftBack, rightBack, ?_, takenBack⟩
      rw [hl]
      exact (perm_moved_right y e.taken (x :: xs') ys').trans taken
    · refine ⟨suffix_of_cons (hl ▸ left), right, leftBack, rightBack, ?_, takenBack⟩
      rw [hr]
      exact (perm_moved_left x e.taken xs' (y :: ys')).trans taken
  · exact .pure he

theorem takeBack_of {e : Ends α} (he : e.Of xs ys) (hb : Blames blame before) :
    Outcome blame (·.Of xs ys) (e.takeBack before) := by
  unfold takeBack
  split
  · next x xs' y ys' hl hr =>
    obtain ⟨left, right, leftBack, rightBack, taken, takenBack⟩ := he
    rw [hl, hr] at takenBack
    refine .ask hb fun _ => .ite (.pure ?_) (.pure ?_)
    · refine ⟨left, right, suffix_of_cons (hl ▸ leftBack), rightBack, taken, ?_⟩
      rw [hr]
      exact (perm_moved_left x e.takenBack xs' (y :: ys')).trans takenBack
    · refine ⟨left, right, leftBack, suffix_of_cons (hr ▸ rightBack), taken, ?_⟩
      rw [hl]
      exact (perm_moved_right y e.takenBack (x :: xs') ys').trans takenBack
  · exact .pure he

theorem step_of {e : Ends α} (he : e.Of xs ys) (hb : Blames blame before) :
    Outcome blame (·.Of xs ys) (e.step before) :=
  (takeFront_of he hb).bind fun _ he => takeBack_of he hb

theorem steps_of (n : Nat) {e : Ends α} (he : e.Of xs ys) (hb : Blames blame before) :
    Outcome blame (·.Of xs ys) (Ends.steps before n e) := by
  induction n generalizing e with
  | zero => exact .pure he
  | succ n ih => exact (step_of he hb).bind fun e he => ih he

/-- The items of a list that a suffix lacks and those that a suffix of the list
turned around has, when the two together have all items. -/
theorem perm_of_ends {zs zsBack : List α} (h : zs <:+ xs) (h' : zsBack <:+ xs.reverse)
    (meet : xs.length ≤ zs.length + zsBack.length) :
    zsBack.Perm (xs.take (xs.length - zs.length) ++
      zs.take (zs.length + zsBack.length - xs.length)) := by
  have hz := List.suffix_iff_eq_drop.1 h
  have hb := List.suffix_iff_eq_drop.1 h'
  have hl := h.length_le
  have hl' := h'.length_le
  rw [List.length_reverse] at hl'
  have back : zsBack = (xs.take zsBack.length).reverse := by
    rw [List.length_reverse, List.drop_reverse, Nat.sub_sub_self hl'] at hb
    exact hb
  have split : xs.take zsBack.length = xs.take (xs.length - zs.length) ++
      zs.take (zs.length + zsBack.length - xs.length) := by
    have hn : zsBack.length =
        (xs.length - zs.length) + (zs.length + zsBack.length - xs.length) := by omega
    conv_lhs => rw [hn, List.take_add]
    rw [← hz]
  rw [← split]
  conv_lhs => rw [back]
  exact List.reverse_perm _

end Ends

open Classical in
theorem mergeEnds_rearranges (hb : Blames blame before) (xs ys : List α) :
    Rearranges blame (xs ++ ys) (mergeEnds before xs ys) := by
  have start : (⟨[], [], xs, ys, xs.reverse, ys.reverse⟩ : Ends α).Of xs ys :=
    ⟨List.suffix_rfl, List.suffix_rfl, List.suffix_rfl, List.suffix_rfl, .refl _,
      xs.reverse_perm.append ys.reverse_perm⟩
  unfold mergeEnds
  refine (Ends.steps_of xs.length start hb).bind fun e he => .pure ?_
  split
  · next size =>
    -- the ends have met, or items would be missing
    have taken := he.taken.length_eq
    have takenBack := he.takenBack.length_eq
    have hl := he.left.length_le
    have hr := he.right.length_le
    have hlb := he.leftBack.length_le
    have hrb := he.rightBack.length_le
    simp only [List.length_append, List.length_reverse, List.reverseAux_eq, List.length_take]
      at taken takenBack hlb hrb size
    have left := Ends.perm_of_ends he.left he.leftBack (by omega)
    have right := Ends.perm_of_ends he.right he.rightBack (by omega)
    have hxs : xs.take (xs.length - e.left.length) ++ e.left = xs :=
      (List.suffix_iff_eq_append.1 he.left)
    have hys : ys.take (ys.length - e.right.length) ++ e.right = ys :=
      (List.suffix_iff_eq_append.1 he.right)
    rw [List.perm_iff_count]
    intro a
    have cl := left.count_eq a
    have cr := right.count_eq a
    have ct := he.taken.count_eq a
    have cb := he.takenBack.count_eq a
    have cx := congrArg (List.count a) hxs
    have cy := congrArg (List.count a) hys
    simp only [List.reverseAux_eq, List.count_append, List.count_reverse] at cl cr ct cb cx cy ⊢
    omega
  · exact .refl _

-- ---------------------------------------------------------------------------
-- Blocks
-- ---------------------------------------------------------------------------

theorem perm_of_ite {p : Prop} [Decidable p] {u v a b : α}
    (h : (if p then (v, u) else (u, v)) = (a, b)) : [a, b].Perm [u, v] := by
  split at h
  · cases h
    exact .swap ..
  · cases h
    exact .refl _

open Classical in
theorem sortFour_rearranges (hb : Blames blame before) (w x y z : α) :
    Rearranges blame [w, x, y, z] (sortFour before w x y z) := by
  unfold sortFour
  refine .ask hb fun first => ?_
  generalize hab : (if first = true then (x, w) else (w, x)) = p
  obtain ⟨a, b⟩ := p
  refine .ask hb fun second => ?_
  generalize hcd : (if second = true then (z, y) else (y, z)) = q
  obtain ⟨c, d⟩ := q
  refine .ask hb fun leastLate => .ask hb fun greatestEarly => .ask hb fun swapped => ?_
  have pairs : [a, b, c, d].Perm [w, x, y, z] := (perm_of_ite hab).append (perm_of_ite hcd)
  have rearranged {zs : List α} (h : zs.Perm [a, b, c, d]) :
      Rearranges blame [w, x, y, z] (pure zs) := h.trans pairs
  cases leastLate <;> cases greatestEarly <;> cases swapped <;> refine rearranged ?_ <;>
    refine List.perm_iff_count.2 fun a => ?_ <;>
    simp only [↓reduceIte, Bool.false_eq_true, List.count_cons, List.count_nil] <;> omega

theorem presort_rearranges (hb : Blames blame before) (xs : List α) :
    Rearranges blame xs (presort before xs) := by
  unfold presort
  split
  · exact sortFour_rearranges hb ..
  · next a b c d e f g h =>
    refine (sortFour_rearranges hb a b c d).bind fun first hf => ?_
    refine (sortFour_rearranges hb e f g h).bind fun second hs => ?_
    exact (mergeEnds_rearranges hb first second).mono fun out ho => ho.trans (hf.append hs)
  · exact .pure (.refl _)

theorem sortBlock_rearranges (hb : Blames blame before) (byEights : Bool) (xs : List α) :
    Rearranges blame xs (sortBlock before byEights xs) := by
  have half (width : Nat) (zs : List α) {γ : Type} {R : γ → Prop} {f : List α → Except Fault γ}
      (hf : ∀ ys, (ys ++ zs.drop width).Perm zs → Outcome blame R (f ys)) :
      Outcome blame R (presort before (zs.take width) >>= f) :=
    (presort_rearranges hb _).bind fun ys hy => hf ys <| by
      have := hy.append_right (zs.drop width)
      rwa [List.take_append_drop] at this
  unfold sortBlock
  split
  · exact .pure (.refl _)
  · rw [List.splitAt_eq]
    dsimp only
    refine half _ _ fun start hs => half _ _ fun start' hs' => ?_
    refine (insertInto_rearranges hb ..).bind fun first hf => ?_
    refine (insertInto_rearranges hb ..).bind fun second hg => ?_
    refine (mergeEnds_rearranges hb first second).mono fun out ho => ho.trans ?_
    have := (hf.trans hs).append (hg.trans hs')
    rwa [List.take_append_drop] at this

-- ---------------------------------------------------------------------------
-- Runs
-- ---------------------------------------------------------------------------

theorem growRun_rearranges (hb : Blames blame before) (descending : Bool) (last : α)
    (seen xs : List α) : Outcome blame (fun r => (r.1 ++ r.2).Perm (seen ++ xs))
      (growRun before descending last seen xs) := by
  induction xs generalizing last seen with
  | nil => exact .pure (.refl _)
  | cons x xs ih =>
    refine .ask hb fun _ => .ite ?_ (.pure (.refl _))
    exact (ih x (x :: seen)).mono fun r h => h.trans List.perm_middle.symm

theorem naturalRun_rearranges (hb : Blames blame before) (xs : List α) :
    Outcome blame (fun r => (r.1 ++ r.2).Perm xs) (naturalRun before xs) := by
  unfold naturalRun
  split
  · next x y rest =>
    refine .ask hb fun descending => (growRun_rearranges hb ..).bind fun r hr => .pure ?_
    have : (r.1 ++ r.2).Perm (x :: y :: rest) := hr.trans (.swap ..)
    cases descending with
    | true => exact this
    | false => exact (r.1.reverse_perm.append_right r.2).trans this
  · exact .pure (by rw [List.append_nil])

namespace Plan

variable {plan : Plan α}

/-- The faults of the plan are to blame, and it sorts runs by rearranging them. -/
structure Rearranging (blame : Fault → Prop) (plan : Plan α) : Prop where
  blames : Blames blame plan.before
  sortRun : ∀ xs, Rearranges blame xs (plan.sortRun xs)

theorem nextRun_rearranges (hp : plan.Rearranging blame) (shortest remaining : Nat)
    (xs : List α) : Outcome blame (fun r => (r.1.items ++ r.2).Perm xs)
      (plan.nextRun shortest remaining xs) := by
  have cut : Outcome blame (fun r => (r.1.items ++ r.2).Perm xs) (do
      if plan.isEager then
        return (⟨← sortBlock plan.before plan.byEights (xs.take blockLimit), true⟩,
          xs.drop blockLimit)
      else return (⟨xs.take shortest, false⟩, xs.drop shortest) :
        Except Fault (Run α × List α)) := by
    refine .ite ?_ (.pure (by rw [List.take_append_drop]))
    refine (sortBlock_rearranges hp.blames _ _).bind fun run hr => .pure ?_
    have := hr.append_right (xs.drop blockLimit)
    rwa [List.take_append_drop] at this
  unfold nextRun
  refine .ite ?_ cut
  refine (naturalRun_rearranges hp.blames xs).bind fun r hr => ?_
  exact .ite (.pure hr) cut

theorem sortedItems_rearranges (hp : plan.Rearranging blame) (run : Run α) :
    Rearranges blame run.items (plan.sortedItems run) :=
  .ite (.pure (.refl _)) (hp.sortRun run.items)

theorem join_rearranges (hp : plan.Rearranging blame) (left right : Run α) :
    Outcome blame (fun run => run.items.Perm (left.items ++ right.items))
      (plan.join left right) := by
  refine .ite ?_ (.pure (.refl _))
  refine (sortedItems_rearranges hp left).bind fun xs hx => ?_
  refine (sortedItems_rearranges hp right).bind fun ys hy => ?_
  exact (merge_rearranges hp.blames xs ys).bind fun zs hz => .pure (hz.trans (hx.append hy))

/-- The items of the runs before a run, the nearest of them first. -/
def pendingItems : List (Run α × Nat) → List α
  | [] => []
  | (run, _) :: pending => pendingItems pending ++ run.items

/-- Closing to depth 0 leaves no run before. -/
theorem close_rearranges (hp : plan.Rearranging blame) (depth : Nat)
    (pending : List (Run α × Nat)) (run : Run α) :
    Outcome blame (fun r => (depth = 0 → r.1 = []) ∧
        (pendingItems r.1 ++ r.2.items).Perm (pendingItems pending ++ run.items))
      (plan.close depth pending run) := by
  induction pending generalizing run with
  | nil => exact .pure ⟨fun _ => rfl, .refl _⟩
  | cons entry pending ih =>
    obtain ⟨left, d⟩ := entry
    rw [close]
    split
    · refine (join_rearranges hp left run).bind fun joined hj => (ih joined).mono fun r hr => ?_
      refine ⟨hr.1, hr.2.trans ((hj.append_left _).trans ?_)⟩
      rw [pendingItems, List.append_assoc]
    · next hd => exact .pure ⟨fun h => absurd (h ▸ Nat.zero_le d) hd, .refl _⟩

theorem joinRuns_rearranges (hp : plan.Rearranging blame) (unbounded : blame .unbounded)
    (size fuel offset : Nat) (xs : List α) (pending : List (Run α × Nat)) (run : Run α) :
    Outcome blame (fun r => r.items.Perm (pendingItems pending ++ run.items ++ xs))
      (plan.joinRuns size fuel offset xs pending run) := by
  have finish (pending : List (Run α × Nat)) (run : Run α) :
      Outcome blame (fun r => r.items.Perm (pendingItems pending ++ run.items ++ []))
        (do return (← plan.close 0 pending run).2) := by
    refine (close_rearranges hp 0 pending run).bind fun (pending', run') hc => .pure ?_
    obtain ⟨rfl, hc⟩ : pending' = [] ∧ _ := ⟨hc.1 rfl, hc.2⟩
    rwa [List.append_nil]
  induction fuel generalizing offset xs pending run with
  | zero =>
    cases xs with
    | nil => exact finish pending run
    | cons x xs => exact unbounded
  | succ fuel ih =>
    cases xs with
    | nil => exact finish pending run
    | cons x xs =>
      refine (nextRun_rearranges hp _ _ _).bind fun (next, rest) hn => ?_
      refine (close_rearranges hp _ _ _).bind fun (pending', run') hc => ?_
      refine (ih _ _ _ _).mono fun r hr => hr.trans ?_
      rw [List.append_assoc]
      exact hc.2.append hn

theorem sort_rearranges (hp : plan.Rearranging blame) (unbounded : blame .unbounded)
    (xs : List α) : Rearranges blame xs (plan.sort xs) := by
  unfold sort
  refine .ite (.pure (.refl _)) ?_
  refine (nextRun_rearranges hp _ _ _).bind fun (run, rest) hn => ?_
  refine (joinRuns_rearranges hp unbounded _ _ _ _ _ _).bind fun joined hj => ?_
  exact (sortedItems_rearranges hp joined).mono fun out ho => ho.trans (hj.trans hn)

end Plan

-- ---------------------------------------------------------------------------
-- Partitioning
-- ---------------------------------------------------------------------------

/-- What is computed from suffixes of a list is one of them. -/
theorem medianHead_suffix (hb : Blames blame before) {a b c : List α} (ha : a <:+ xs)
    (hb' : b <:+ xs) (hc : c <:+ xs) : Outcome blame (· <:+ xs) (medianHead before a b c) := by
  unfold medianHead
  split
  · refine .ask hb fun _ => .ask hb fun _ => .ite (.ask hb fun _ => .pure ?_) (.pure ha)
    split
    · exact hc
    · exact hb'
  · exact .pure ha

theorem medianFrom_suffix (hb : Blames blame before) (n : Nat) {a b c : List α} (ha : a <:+ xs)
    (hb' : b <:+ xs) (hc : c <:+ xs) : Outcome blame (· <:+ xs) (medianFrom before n a b c) := by
  induction n using Nat.strongRecOn generalizing a b c with
  | ind n ih =>
    rw [medianFrom]
    split
    · next hn =>
      have smaller : n / 8 < n := Nat.div_lt_self (by omega) (by omega)
      have inner {zs : List α} (hz : zs <:+ xs) :=
        ih (n / 8) smaller hz ((List.drop_suffix (n / 8 * 4) zs).trans hz)
          ((List.drop_suffix (n / 8 * 7) zs).trans hz)
      refine (inner ha).bind fun a ha => (inner hb').bind fun b hb' => ?_
      exact (inner hc).bind fun c hc => medianHead_suffix hb ha hb' hc
    · exact medianHead_suffix hb ha hb' hc

theorem pivotSuffix_suffix (hb : Blames blame before) (xs : List α) :
    Outcome blame (· <:+ xs) (pivotSuffix before xs) :=
  medianFrom_suffix hb _ List.suffix_rfl (List.drop_suffix ..) (List.drop_suffix ..)

theorem separate_rearranges {test : α → Except Fault Bool}
    (ht : ∀ x, Outcome blame (fun _ => True) (test x)) (passed failed xs : List α) :
    Outcome blame (fun r => (r.1 ++ r.2).Perm (passed ++ failed ++ xs))
      (separate test passed failed xs) := by
  induction xs generalizing passed failed with
  | nil => exact .pure (by rw [List.append_nil])
  | cons x xs ih =>
    refine (ht x).bind fun _ _ => .ite ((ih ..).mono fun r hr => ?_) ((ih ..).mono fun r hr => ?_)
    · exact hr.trans List.perm_middle.symm
    · exact hr.trans ((List.perm_middle.append_right xs).trans List.perm_middle.symm)

theorem splitAround_rearranges {test : α → Except Fault Bool}
    (ht : ∀ x, Outcome blame (fun _ => True) (test x)) (pivotPasses : Bool) (front : List α)
    (pivot : α) (back : List α) :
    Outcome blame (fun r => (r.1 ++ r.2).Perm (front ++ pivot :: back))
      (splitAround test pivotPasses front pivot back) := by
  unfold splitAround
  refine (separate_rearranges ht [] [] front).bind fun (passed, failed) hf => ?_
  have placed : ∀ p : List α × List α,
      (if pivotPasses = true then (pivot :: passed, failed) else (passed, pivot :: failed)) = p →
        (p.1 ++ p.2).Perm (pivot :: front) := by
    rintro p rfl
    split
    · exact hf.cons pivot
    · exact List.perm_middle.trans (hf.cons pivot)
  dsimp only
  generalize hp : (if pivotPasses = true then (pivot :: passed, failed)
    else (passed, pivot :: failed)) = p
  refine (separate_rearranges ht p.1 p.2 back).bind fun (passed', failed') hs => .pure ?_
  have all := hs.trans ((placed p hp).append_right back)
  exact ((passed'.reverse_perm.append failed'.reverse_perm).trans all).trans List.perm_middle.symm

theorem isRepeated_outcome (hb : Blames blame before) (ancestor : Option α) (pivot : α) :
    Outcome blame (fun _ => True) (isRepeated before ancestor pivot) := by
  cases ancestor with
  | none => exact .pure trivial
  | some a => exact .ask hb fun _ => .pure trivial

theorem partitionSort_rearranges (hb : Blames blame before) (unbounded : blame .unbounded)
    (byEights : Bool) (splits : Nat) (ancestor : Option α) (xs : List α) :
    Rearranges blame xs (partitionSort before byEights splits ancestor xs) := by
  have keeping (ys : List α) : Rearranges blame ys (pure ys) := List.Perm.refl ys
  have testNot (x y : α) : Outcome blame (fun _ => True) (Bool.not <$> before x y) :=
    .ask hb fun _ => .pure trivial
  induction splits generalizing ancestor xs with
  | zero =>
    rw [partitionSort]
    refine .ite (sortBlock_rearranges hb byEights xs) ?_
    exact Plan.sort_rearranges ⟨hb, keeping⟩ unbounded xs
  | succ splits ih =>
    rw [partitionSort]
    refine .ite (sortBlock_rearranges hb byEights xs) ?_
    refine (pivotSuffix_suffix hb xs).bind fun suffix hs => ?_
    cases suffix with
    | nil => exact .pure (List.Perm.refl xs)
    | cons pivot back =>
      have around : xs.take (xs.length - back.length - 1) ++ pivot :: back = xs :=
        List.suffix_iff_eq_append.1 hs
      refine (isRepeated_outcome hb ancestor pivot).bind fun repeated _ => ?_
      have less : Outcome blame (fun r => (r.1 ++ r.2).Perm xs)
          (splitLess before repeated (xs.take (xs.length - back.length - 1)) pivot back) := by
        refine .ite (.pure (.of_eq around)) ?_
        exact (splitAround_rearranges (.test hb · pivot) ..).mono fun r hr => hr.trans (.of_eq around)
      refine less.bind fun (less, others) hl => .ite ?_ ?_
      · refine (splitAround_rearranges (testNot pivot) ..).bind fun (equivalent, greater) he => ?_
        refine (ih none greater).bind fun sorted hg => .pure ?_
        exact ((hg.append_left equivalent).trans he).trans (.of_eq around)
      · refine (ih (some pivot) others).bind fun sorted ho => ?_
        exact (ih ancestor less).bind fun sorted' hl' => .pure ((hl'.append ho).trans hl)

-- ---------------------------------------------------------------------------
-- Sorting
-- ---------------------------------------------------------------------------

theorem sortLong_rearranges (hb : Blames blame before) (unbounded : blame .unbounded)
    (byEights : Bool) (xs : List α) : Rearranges blame xs (sortLong before byEights xs) :=
  Plan.sort_rearranges
    ⟨hb, fun ys => partitionSort_rearranges hb unbounded byEights _ none ys⟩ unbounded xs

/-- Sorting rearranges, also when a comparison fails. -/
theorem sort_perm (lt : α → α → Except Fault Bool) (byEights reverse : Bool) (xs : List α) :
    (sort lt byEights reverse xs).1.Perm xs := by
  have anyway : Blames (fun _ => True) (goesBefore lt reverse) := fun _ _ _ _ => trivial
  unfold sort
  dsimp only
  split
  · exact insertAll_perm _ [] xs
  · have long := sortLong_rearranges anyway trivial byEights xs
    split
    · next out he =>
      rw [he] at long
      exact long
    · exact .refl _

/-- The failure of a sort is one of its comparisons. -/
theorem blame_of_sort {lt : α → α → Except Fault Bool} (hl : Blames blame lt)
    (unbounded : blame .unbounded) {byEights reverse : Bool} {f : Fault}
    (h : (sort lt byEights reverse xs).2 = some f) : blame f := by
  have hb := blames_goesBefore hl reverse
  unfold sort at h
  dsimp only at h
  split at h
  · exact blame_of_insertAll hb h
  · have long := sortLong_rearranges hb unbounded byEights xs
    split at h
    · cases h
    · next e he =>
      cases h
      rw [he] at long
      exact long

end ObjectModel.Sorting
