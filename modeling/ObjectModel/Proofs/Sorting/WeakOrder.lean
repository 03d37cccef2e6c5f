import Mathlib.Data.Nat.Basic
import ObjectModel.Proofs.Sorting.Partitioning

/-!
# Sorting by a strict weak order

A comparison that is a strict weak order ranks the items by how many others go
before them, so sorting is stable, in both directions, and the places to which
it moves the items depend only on what the comparison answers.

Main statements: `sort_stable` and `Alike.sort_eq`.
-/

namespace ObjectModel.Sorting

variable {α β γ : Type} {lt before : Before α} {xs : List α} {x y z : α}

-- ---------------------------------------------------------------------------
-- Strict weak orders
-- ---------------------------------------------------------------------------

/-- The comparison answers yes. -/
def isLess (lt : Before α) (x y : α) : Bool :=
  match lt x y with
  | .ok answer => answer
  | .error _ => false

/-- Neither of two items is less than the other. -/
def equivalent (lt : Before α) (x y : α) : Bool := !isLess lt x y && !isLess lt y x

/-- On the items of a list, the comparison never fails and is a strict weak order. -/
structure WeakOrder (lt : Before α) (xs : List α) : Prop where
  total : ∀ x ∈ xs, ∀ y ∈ xs, ∃ answer, lt x y = .ok answer
  irrefl : ∀ x ∈ xs, isLess lt x x = false
  trans : ∀ x ∈ xs, ∀ y ∈ xs, ∀ z ∈ xs,
    isLess lt x y = true → isLess lt y z = true → isLess lt x z = true
  equivalent_trans : ∀ x ∈ xs, ∀ y ∈ xs, ∀ z ∈ xs,
    equivalent lt x y = true → equivalent lt y z = true → equivalent lt x z = true

/-- The second list has the items of the first one, each as often, with no later
item less than an earlier one, or with no earlier item less than a later one if
the direction is reversed, and with equivalent items in the order in which the
first has them. -/
structure StableSort (lt : Before α) (reverse : Bool) (xs ys : List α) : Prop where
  perm : ys.Perm xs
  ordered : ys.Pairwise fun earlier later =>
    (if reverse then isLess lt earlier later else isLess lt later earlier) = false
  stable : ∀ x ∈ xs, ys.filter (equivalent lt x) = xs.filter (equivalent lt x)

theorem equivalent_comm (lt : Before α) (x y : α) : equivalent lt x y = equivalent lt y x :=
  Bool.and_comm ..

namespace WeakOrder

theorem eq_ok (h : WeakOrder lt xs) (hx : x ∈ xs) (hy : y ∈ xs) : lt x y = .ok (isLess lt x y) := by
  obtain ⟨answer, ha⟩ := h.total x hx y hy
  rw [isLess, ha]

theorem asymm (h : WeakOrder lt xs) (hx : x ∈ xs) (hy : y ∈ xs) (less : isLess lt x y = true) :
    isLess lt y x = false := by
  by_contra back
  have loop := h.trans x hx y hy x hx less (by simpa using back)
  rw [h.irrefl x hx] at loop
  cases loop

/-- What is less than an item is less than those that it is not less than. -/
theorem negTrans (h : WeakOrder lt xs) (hx : x ∈ xs) (hy : y ∈ xs) (hz : z ∈ xs)
    (xy : isLess lt x y = false) (yz : isLess lt y z = false) : isLess lt x z = false := by
  by_contra less
  have less : isLess lt x z = true := by simpa using less
  have yx : isLess lt y x = false := by
    by_contra back
    have := h.trans y hy x hx z hz (by simpa using back) less
    rw [yz] at this
    cases this
  have zy : isLess lt z y = false := by
    by_contra back
    have := h.trans x hx z hz y hy less (by simpa using back)
    rw [xy] at this
    cases this
  have := h.equivalent_trans x hx y hy z hz (by simp [equivalent, *]) (by simp [equivalent, *])
  simp [equivalent, less] at this

end WeakOrder

-- ---------------------------------------------------------------------------
-- Ranks of a strict weak order
-- ---------------------------------------------------------------------------

/-- The number of items of a list that are less. -/
def rankIn (lt : Before α) (xs : List α) (x : α) : Nat := xs.countP (isLess lt · x)

theorem countP_lt_countP {p q : α → Bool} (imp : ∀ x ∈ xs, p x = true → q x = true)
    (hx : x ∈ xs) (hp : p x = false) (hq : q x = true) : xs.countP p < xs.countP q := by
  obtain ⟨as, bs, rfl⟩ := List.append_of_mem hx
  have front : as.countP p ≤ as.countP q := List.countP_mono_left fun x h => imp x (by simp [h])
  have back : bs.countP p ≤ bs.countP q := List.countP_mono_left fun x h => imp x (by simp [h])
  simp only [List.countP_append, List.countP_cons, hp, hq]
  simp only [↓reduceIte, Bool.false_eq_true]
  omega

theorem WeakOrder.isLess_iff (h : WeakOrder lt xs) (hx : x ∈ xs) (hy : y ∈ xs) :
    isLess lt x y = true ↔ rankIn lt xs x < rankIn lt xs y := by
  constructor
  · intro less
    exact countP_lt_countP (fun z hz hzx => h.trans z hz x hx y hy hzx less) hx (h.irrefl x hx) less
  · intro lower
    by_contra other
    refine lower.not_ge (List.countP_mono_left fun z hz hzy => ?_)
    by_contra hzx
    have := h.negTrans hz hx hy (by simpa using hzx) (by simpa using other)
    rw [this] at hzy
    cases hzy

theorem WeakOrder.decides (h : WeakOrder lt xs) : Decides (rankIn lt xs) (· ∈ xs) lt := by
  intro x y hx hy
  rw [h.eq_ok hx hy]
  exact congrArg _ (Bool.eq_iff_iff.2 ((h.isLess_iff hx hy).trans decide_eq_true_iff.symm))

/-- Reversing the direction exchanges the sides of the comparison. -/
theorem WeakOrder.goesBefore_eq (h : WeakOrder lt xs) (reverse : Bool) (hx : x ∈ xs) (hy : y ∈ xs) :
    goesBefore lt reverse x y = .ok (if reverse then isLess lt y x else isLess lt x y) := by
  rw [goesBefore, h.eq_ok hx hy, h.eq_ok hy hx, ok_bind, ok_bind]
  cases less : isLess lt x y with
  | true => cases reverse <;> simp [h.asymm hx hy less] <;> rfl
  | false => cases reverse <;> cases isLess lt y x <;> rfl

theorem WeakOrder.isLess_goesBefore (h : WeakOrder lt xs) (reverse : Bool) (hx : x ∈ xs)
    (hy : y ∈ xs) : isLess (goesBefore lt reverse) x y =
      if reverse then isLess lt y x else isLess lt x y := by
  rw [isLess, h.goesBefore_eq reverse hx hy]

theorem WeakOrder.equivalent_goesBefore (h : WeakOrder lt xs) (reverse : Bool) (hx : x ∈ xs)
    (hy : y ∈ xs) : equivalent (goesBefore lt reverse) x y = equivalent lt x y := by
  rw [equivalent, h.isLess_goesBefore reverse hx hy, h.isLess_goesBefore reverse hy hx]
  cases reverse with
  | true => exact equivalent_comm lt y x
  | false => rfl

theorem WeakOrder.goesBefore (h : WeakOrder lt xs) (reverse : Bool) :
    WeakOrder (Sorting.goesBefore lt reverse) xs where
  total x hx y hy := ⟨_, h.goesBefore_eq reverse hx hy⟩
  irrefl x hx := by
    rw [h.isLess_goesBefore reverse hx hx, h.irrefl x hx]
    exact ite_self _
  trans x hx y hy z hz := by
    rw [h.isLess_goesBefore reverse hx hy, h.isLess_goesBefore reverse hy hz,
      h.isLess_goesBefore reverse hx hz]
    cases reverse with
    | true => exact fun xy yz => h.trans z hz y hy x hx yz xy
    | false => exact h.trans x hx y hy z hz
  equivalent_trans x hx y hy z hz := by
    rw [h.equivalent_goesBefore reverse hx hy, h.equivalent_goesBefore reverse hy hz,
      h.equivalent_goesBefore reverse hx hz]
    exact h.equivalent_trans x hx y hy z hz

-- ---------------------------------------------------------------------------
-- Sorting
-- ---------------------------------------------------------------------------

/-- The sorted list by the number of items that go before. -/
theorem sort_sortsTo (h : WeakOrder lt xs) (byEights reverse : Bool) :
    ∃ ys, sort lt byEights reverse xs = (ys, none) ∧
      SortsTo (rankIn (goesBefore lt reverse) xs) xs ys :=
  sort_of_decides (h.goesBefore reverse).decides byEights fun _ hx => hx

theorem SortsTo.stableSort (h : WeakOrder lt xs) {reverse : Bool} {ys : List α}
    (sorts : SortsTo (rankIn (goesBefore lt reverse) xs) xs ys) : StableSort lt reverse xs ys where
  perm := sorts.perm
  ordered := by
    refine sorts.ascends.imp_of_mem fun {x y} hx hy le => ?_
    have hx := sorts.mem_iff.1 hx
    have hy := sorts.mem_iff.1 hy
    rw [← h.isLess_goesBefore reverse hy hx]
    by_contra less
    exact le.not_gt (((h.goesBefore reverse).isLess_iff hy hx).1 (by simpa using less))
  stable x hx := by
    have level_eq (zs : List α) (hz : ∀ z ∈ zs, z ∈ xs) : zs.filter (equivalent lt x) =
        level (rankIn (goesBefore lt reverse) xs) (rankIn (goesBefore lt reverse) xs x) zs :=
      List.filter_congr fun z mem => by
        have hz := hz z mem
        have less := (h.goesBefore reverse).isLess_iff hx hz
        have greater := (h.goesBefore reverse).isLess_iff hz hx
        rw [← h.equivalent_goesBefore reverse hx hz, equivalent, Bool.eq_iff_iff]
        simp only [Bool.and_eq_true, Bool.not_eq_true', decide_eq_true_eq, ← Bool.not_eq_true, less,
          greater]
        omega
    rw [level_eq ys fun z hz => sorts.mem_iff.1 hz, level_eq xs fun z hz => hz, sorts.level_eq]

/-- Sorting is stable. -/
theorem sort_stable (h : WeakOrder lt xs) (byEights reverse : Bool) :
    ∃ ys, sort lt byEights reverse xs = (ys, none) ∧ StableSort lt reverse xs ys := by
  obtain ⟨ys, run, sorts⟩ := sort_sortsTo h byEights reverse
  exact ⟨ys, run, sorts.stableSort h⟩

/-- What comes first is the first of the items that no other goes before. -/
theorem sort_first (h : WeakOrder lt xs) (nonempty : xs ≠ []) (byEights reverse : Bool) :
    ∃ y ys, sort lt byEights reverse xs = (y :: ys, none) ∧
      xs.argmin (rankIn (goesBefore lt reverse) xs) = some y ∧
      ∃ front back, xs = front ++ y :: back ∧
        (∀ x ∈ front, isLess (goesBefore lt reverse) y x = true) ∧
        ∀ x ∈ xs, isLess (goesBefore lt reverse) x y = false := by
  obtain ⟨ys, run, sorts⟩ := sort_sortsTo h byEights reverse
  cases ys with
  | nil => exact absurd (List.length_eq_zero_iff.1 sorts.length_eq.symm) nonempty
  | cons y ys =>
    have hy : y ∈ xs := sorts.mem_iff.1 List.mem_cons_self
    have less {x z : α} := (h.goesBefore reverse).isLess_iff (x := x) (y := z)
    obtain ⟨front, back, split, higher, least⟩ := sorts.exists_split
    refine ⟨y, ys, run, sorts.argmin_eq, front, back, split, fun x hx => ?_, fun x hx => ?_⟩
    · exact (less hy (split ▸ List.mem_append_left _ hx)).2 (higher x hx)
    · rw [← Bool.not_eq_true, less hx hy]
      exact (least x hx).not_gt

-- ---------------------------------------------------------------------------
-- Two comparisons that answer alike
-- ---------------------------------------------------------------------------

theorem SortsTo.map {κ : Type} [LinearOrder κ] {rank : β → κ} {f : α → β} {ys : List α}
    (h : SortsTo (rank ∘ f) xs ys) : SortsTo rank (xs.map f) (ys.map f) where
  ascends := List.pairwise_map.2 h.ascends
  level_eq k := by
    have same := congrArg (List.map f) (h.level_eq k)
    rw [level, level, List.filter_map, List.filter_map]
    exact same

theorem SortsTo.congr_rank {κ : Type} [LinearOrder κ] {rank rank' : α → κ} {ys : List α}
    (h : SortsTo rank xs ys) (same : ∀ x ∈ xs, rank x = rank' x) : SortsTo rank' xs ys where
  ascends := h.ascends.imp_of_mem fun hx hy le => by
    rwa [← same _ (h.mem_iff.1 hx), ← same _ (h.mem_iff.1 hy)]
  level_eq k := by
    have level_eq (zs : List α) (hz : ∀ z ∈ zs, z ∈ xs) : level rank' k zs = level rank k zs :=
      List.filter_congr fun z mem => by rw [same z (hz z mem)]
    rw [level_eq ys fun y hy => h.mem_iff.1 hy, level_eq xs fun x hx => hx, h.level_eq]

/-- What two comparisons answer alike, on items that stand for others. -/
def Alike (lt : Before α) (lt' : Before β) (f : γ → α) (g : γ → β) (zs : List γ) : Prop :=
  ∀ x ∈ zs, ∀ y ∈ zs, lt' (g x) (g y) = lt (f x) (f y)

namespace Alike

variable {lt' : Before β} {f : γ → α} {g : γ → β} {zs : List γ}

theorem isLess_eq (alike : Alike lt lt' f g zs) {x y : γ} (hx : x ∈ zs) (hy : y ∈ zs) :
    isLess lt' (g x) (g y) = isLess lt (f x) (f y) := by
  rw [isLess, isLess, alike x hx y hy]

theorem weakOrder (alike : Alike lt lt' f g zs) (h : WeakOrder lt (zs.map f)) :
    WeakOrder lt' (zs.map g) := by
  obtain ⟨total, irrefl, trans, equivalent_trans⟩ := h
  simp only [List.forall_mem_map] at total irrefl trans equivalent_trans
  constructor <;> simp only [List.forall_mem_map]
  · intro x hx y hy
    rw [alike x hx y hy]
    exact total x hx y hy
  · intro x hx
    rw [alike.isLess_eq hx hx]
    exact irrefl x hx
  · intro x hx y hy z hz
    rw [alike.isLess_eq hx hy, alike.isLess_eq hy hz, alike.isLess_eq hx hz]
    exact trans x hx y hy z hz
  · intro x hx y hy z hz
    simp only [equivalent, alike.isLess_eq hx hy, alike.isLess_eq hy hz, alike.isLess_eq hx hz,
      alike.isLess_eq hy hx, alike.isLess_eq hz hy, alike.isLess_eq hz hx]
    exact equivalent_trans x hx y hy z hz

theorem goesBefore (alike : Alike lt lt' f g zs) (reverse : Bool) :
    Alike (Sorting.goesBefore lt reverse) (Sorting.goesBefore lt' reverse) f g zs := by
  intro x hx y hy
  rw [Sorting.goesBefore, Sorting.goesBefore, alike x hx y hy, alike y hy x hx]

theorem rankIn_eq (alike : Alike lt lt' f g zs) {x : γ} (hx : x ∈ zs) :
    rankIn lt (zs.map f) (f x) = rankIn lt' (zs.map g) (g x) := by
  rw [rankIn, rankIn, List.countP_map, List.countP_map]
  refine List.countP_congr fun y hy => ?_
  rw [Function.comp, Function.comp, alike.isLess_eq hy hx]

/-- Items that are compared alike are moved to the same places. -/
theorem sort_eq (alike : Alike lt lt' f g zs) (h : WeakOrder lt (zs.map f))
    (byEights byEights' reverse : Bool) :
    ∃ out : List γ, sort lt byEights reverse (zs.map f) = (out.map f, none) ∧
      sort lt' byEights' reverse (zs.map g) = (out.map g, none) := by
  obtain ⟨us, run, sorts⟩ := sort_sortsTo h byEights reverse
  obtain ⟨vs, run', sorts'⟩ := sort_sortsTo (alike.weakOrder h) byEights' reverse
  obtain ⟨out, ho⟩ := exists_sortsTo
    (rankIn (Sorting.goesBefore lt reverse) (zs.map f) ∘ f) zs
  refine ⟨out, ?_, ?_⟩
  · rw [run, sorts.unique ho.map]
  · have moved := ho.congr_rank fun x hx => (alike.goesBefore reverse).rankIn_eq hx
    rw [run', sorts'.unique moved.map]

end Alike

end ObjectModel.Sorting
