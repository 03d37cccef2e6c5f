import ObjectModel.Proofs.Dict.Assoc
import ObjectModel.Proofs.Program.Basic
import ObjectModel.Proofs.Set.Algebra

/-!
# Sets in programs

In a program no two elements of a set are equal. The operators combine
membership, the comparisons are inclusion, and the sizes of a union and of an
intersection add up. Elements that nest a bound method are left out, since
equality and hash codes disagree on them.

Main statement: `Reachable.set_algebra`.
-/

namespace ObjectModel

open ObjectModel.Action World

-- ---------------------------------------------------------------------------
-- Members
-- ---------------------------------------------------------------------------

namespace Heap

/-- Some element of the set equals the value. -/
def Member (h : Heap) (r : Ref .set) (x : Value) : Prop :=
  ∃ k ∈ (h.set r).keys, h.equals k.value x = true

/-- No two elements of the set are equal. -/
def Distinct (h : Heap) (r : Ref .set) : Prop :=
  (h.set r).keys.Pairwise fun k l => h.equals k.value l.value = false

/-- No element of the set nests a bound method. -/
def MethodFree (h : Heap) (r : Ref .set) : Prop := ∀ k ∈ (h.set r).keys, k.value.methodFree = true

variable {h : Heap} {w : World} {r : Ref .set} {k l : Key}

theorem equals_eq_same (hk : w.Has k) (hl : w.Has l) (free : k.value.methodFree = true) :
    h.equals k.value l.value = k.same l := by
  rw [equals_eq_sameKey k.hash_eq l.hash_eq, Key.same_eq_sameKey hk hl free]

theorem member_iff (hr : w.Has (h.set r)) (free : h.MethodFree r) (hk : w.Has k) :
    h.Member r k.value ↔ (h.set r).contains k = true := by
  rw [Keyed.contains_iff_keys]
  refine exists_congr fun l => and_congr_right fun hl => ?_
  rw [equals_eq_same (Keyed.has_keys hr l hl) hk (free l hl)]

theorem distinct_of_methodFree (hr : w.Has (h.set r)) (free : h.MethodFree r) : h.Distinct r :=
  (h.set r).pairwise_keys.imp_of_mem fun hk hl apart =>
    (equals_eq_same (Keyed.has_keys hr _ hk) (Keyed.has_keys hr _ hl) (free _ hk)).trans apart

theorem equals_sets (h : Heap) (a b : Ref .set) :
    h.equals (.set a) (.set b) = (h.set a).same (h.set b) := by
  have self : (Value.set a).is (.set b) = true → (h.set a).same (h.set b) = true := by
    obtain ⟨a⟩ := a
    obtain ⟨b⟩ := b
    intro one
    cases Value.is_iff.1 one
    exact KeySet.same_refl _
  simp only [Heap.equals, Heap.depth, Heap.equalsAt, Value.equalsWith, Value.leafEquals,
    contentsEqual]
  rwa [Bool.eq_iff_iff, Bool.or_eq_true, or_iff_right_iff_imp]

end Heap

-- ---------------------------------------------------------------------------
-- Operators
-- ---------------------------------------------------------------------------

/-- How an operator on sets combines membership. -/
def BinaryOp.onMembers? : BinaryOp → Option (Bool → Bool → Bool)
  | .or => some (· || ·)
  | .and => some (· && ·)
  | .sub => some fun m n => m && !n
  | .xor => some (· != ·)
  | _ => none

/-- An operator on sets does to keys what it does to membership. -/
theorem BinaryOp.exists_onSets {op : BinaryOp} {f : Bool → Bool → Bool}
    (h : op.onMembers? = some f) : ∃ g, op.onSets? = some g ∧
    (∀ (w : World) (s t : KeySet) (k : Key), w.Has s → w.Has t → w.Has k →
      (g s t).contains k = f (s.contains k) (t.contains k)) ∧
    ∀ s t, ∀ k ∈ (g s t).keys, k ∈ s.keys ∨ k ∈ t.keys := by
  have kept {s : KeySet} {p : Key → Bool} {k : Key} (h : k ∈ (s.filter p).keys) : k ∈ s.keys :=
    (List.mem_filter.1 (KeySet.keys_filter s p ▸ h)).1
  have joined {s t : KeySet} {k : Key} (h : k ∈ (s.union t).keys) : k ∈ s.keys ∨ k ∈ t.keys := by
    rw [KeySet.keys_union, List.mem_append] at h
    exact h.imp_right fun h => (List.mem_filter.1 h).1
  cases op with
  | or =>
    cases h
    exact ⟨_, rfl, fun w s t k => KeySet.contains_union, fun s t k => joined⟩
  | and =>
    cases h
    exact ⟨_, rfl, fun w s t k => KeySet.contains_inter, fun s t k hk => .inl (kept hk)⟩
  | sub =>
    cases h
    exact ⟨_, rfl, fun w s t k => KeySet.contains_diff, fun s t k hk => .inl (kept hk)⟩
  | xor =>
    cases h
    exact ⟨_, rfl, fun w s t k => KeySet.contains_symmDiff,
      fun s t k hk => (joined hk).imp kept kept⟩
  | _ => cases h

/-- In place an operator leaves the keys that it gives otherwise. -/
theorem BinaryOp.exists_inSets {op : BinaryOp} {g : KeySet → KeySet → KeySet}
    (h : op.onSets? = some g) :
    ∃ g', op.inSets? = some g' ∧ ∀ s t, (g' s t).keys = (g s t).keys := by
  cases op with
  | or | xor =>
    cases h
    exact ⟨_, rfl, fun _ _ => rfl⟩
  | and | sub =>
    cases h
    exact ⟨_, rfl, fun s t => (s.keys_retain _).trans (s.keys_filter _).symm⟩
  | _ => cases h

theorem Keyed.contains_of_keys {s t : KeySet} (same : s.keys = t.keys) (k : Key) :
    s.contains k = t.contains k := by
  rw [Bool.eq_iff_iff, contains_iff_keys, contains_iff_keys, same]

namespace Action

variable {op : BinaryOp} {g : KeySet → KeySet → KeySet}

theorem runOn_contains {x : Value} {k : Key} (hx : Key.ofValue x = .ok k) (r : Ref .set)
    (s : Session) : (contains (.set r) x).runOn s = (.ok ((s.heap.set r).contains k), s) := by
  rw [contains, runOn_bind_of_ok (runOn_readSet r s), runOn_bind_of_ok (runOn_lift_of_ok hx s),
    runOn_pure]

/-- An operator makes a new set and leaves the others as they are. -/
theorem runOn_binary (h : op.onSets? = some g) (a b : Ref .set) (s : Session) :
    ∃ s', (binary op (.set a) (.set b)).runOn s = (.ok (.set ⟨s.heap.sets.size⟩), s') ∧
      s'.heap.set ⟨s.heap.sets.size⟩ = g (s.heap.set a) (s.heap.set b) ∧
      s'.heap.sets.size = s.heap.sets.size + 1 ∧
      ∀ r : Ref .set, r.index < s.heap.sets.size → s'.heap.set r = s.heap.set r := by
  have operand : (setOperand op.symbol (.set b)).runOn s = (.ok (s.heap.set b), s) := rfl
  obtain ⟨s', made, new⟩ := runOn_newSet (g (s.heap.set a) (s.heap.set b)) s
  refine ⟨s', ?_, new⟩
  simp only [binary, h]
  rw [runOn_bind_of_ok operand, runOn_bind_of_ok (runOn_readSet a s), made]

/-- An in-place operator changes its left operand. -/
theorem runOn_inPlace (h : op.inSets? = some g) (a b : Ref .set) (s : Session) :
    ∃ s', (inPlace op (.set a) (.set b)).runOn s = (.ok (.set a), s') ∧
      s'.heap.set a = g (s.heap.set a) (s.heap.set b) := by
  have operand : (setOperand (inPlaceSymbol op) (.set b)).runOn s = (.ok (s.heap.set b), s) := rfl
  obtain ⟨s', written, holds⟩ : ∃ s', (writeSet a (g (s.heap.set a) (s.heap.set b))).runOn s =
      (.ok (), s') ∧ s'.heap.set a = g (s.heap.set a) (s.heap.set b) :=
    ⟨_, rfl, Heap.set_putSet ..⟩
  refine ⟨s', ?_, holds⟩
  simp only [inPlace, h]
  rw [runOn_bind_of_ok operand, runOn_bind_of_ok (runOn_readSet a s), runOn_bind_of_ok written,
    runOn_pure]

theorem runOn_compare (op : Comparison) (a b : Ref .set) (s : Session) :
    (compare op (.set a) (.set b)).runOn s =
      (.ok (op.ofSets (s.heap.set a) (s.heap.set b)), s) := rfl

theorem runOn_equals (a b : Ref .set) (s : Session) : (equals (.set a) (.set b)).runOn s =
    (.ok ((s.heap.set a).same (s.heap.set b)), s) :=
  congrArg (fun b => (Except.ok b, s)) (Heap.equals_sets ..)

theorem runOn_length (r : Ref .set) (s : Session) (fits : Checked.Fits (s.heap.set r).size) :
    ∃ n, (length (.set r)).runOn s = (.ok n, s) ∧ n.toInt = (s.heap.set r).size := by
  refine ⟨Int64.ofInt (s.heap.set r).size, ?_, Int64.toInt_ofInt_of_le fits.1 fits.2⟩
  rw [length, runOn_bind_of_ok (runOn_heap s)]
  simp only [Heap.length?, wordOf, Checked.narrow?, if_pos fits]
  rfl

end Action

-- ---------------------------------------------------------------------------
-- Programs
-- ---------------------------------------------------------------------------

namespace Program

variable {p : Program} {w : World} {a b u : Ref .set} {op : BinaryOp} {f : Bool → Bool → Bool}
  {g : KeySet → KeySet → KeySet} {s : Session}

/-- In a later session, no two elements of `u` are equal, and what is in `u` is
what `f` makes of being in `a` and of being in `b` before. -/
structure Combines (f : Bool → Bool → Bool) (p : Program) (a b : Ref .set) (s : Session)
    (u : Ref .set) : Prop where
  distinct : s.heap.Distinct u
  contains : ∀ x n, p.Holds x → x.hash = .ok n → ∃ inA inB,
    (contains (.set a) x).runOn p.session = (.ok inA, p.session) ∧
    (contains (.set b) x).runOn p.session = (.ok inB, p.session) ∧
    (contains (.set u) x).runOn s = (.ok (f inA inB), s)

theorem exists_key {x : Value} {n : Int64} (modeled : Modeled w p) (hx : p.Holds x)
    (hash : x.hash = .ok n) : ∃ k : Key, k.value = x ∧ Key.ofValue x = .ok k ∧ w.Has k :=
  ⟨⟨x, n, hash⟩, rfl, Key.ofValue_value ⟨x, n, hash⟩, modeled.has hx⟩

theorem Modeled.combines (modeled : Modeled w p) (ha : p.heap.MethodFree a)
    (hb : p.heap.MethodFree b) (agrees : ∀ (w : World) (s t : KeySet) (k : Key), w.Has s →
      w.Has t → w.Has k → (g s t).contains k = f (s.contains k) (t.contains k))
    (sources : ∀ s t, ∀ k ∈ (g s t).keys, k ∈ s.keys ∨ k ∈ t.keys)
    (hu : s.heap.set u = g (p.heap.set a) (p.heap.set b)) : Combines f p a b s u := by
  have left := modeled.models.set a
  have right := modeled.models.set b
  constructor
  · refine Heap.distinct_of_methodFree (w := w) ?_ ?_
    · intro e he
      refine ⟨?_, trivial⟩
      have hk : e.1 ∈ (s.heap.set u).keys := List.mem_map_of_mem he
      rw [hu] at hk
      rcases sources _ _ _ hk with hk | hk
      · exact Keyed.has_keys left _ hk
      · exact Keyed.has_keys right _ hk
    · intro k hk
      rw [hu] at hk
      exact (sources _ _ _ hk).elim (ha k) (hb k)
  · intro x n hx hash
    obtain ⟨k, rfl, key, hk⟩ := exists_key modeled hx hash
    refine ⟨_, _, runOn_contains key a _, runOn_contains key b _, ?_⟩
    rw [runOn_contains key u, hu, agrees w _ _ _ left right hk]
    rfl

/-- No two elements of a set are equal, and it contains what equals an element.
The operators combine membership, the comparisons are inclusion and its proper
form, equality is inclusion both ways, and the sizes of `a | b` and of `a & b`
add up to those of `a` and of `b`. In every session the length is the size. -/
theorem Reachable.set_algebra (reachable : p.Reachable) :
    (∀ r, p.heap.MethodFree r → p.heap.Distinct r ∧
      ∀ x n, p.Holds x → x.hash = .ok n → ∃ inside,
        (contains (.set r) x).runOn p.session = (.ok inside, p.session) ∧
        (inside = true ↔ p.heap.Member r x)) ∧
    (∀ (s : Session) r, Checked.Fits (s.heap.set r).size → ∃ n,
      (length (.set r)).runOn s = (.ok n, s) ∧ n.toInt = (s.heap.set r).size) ∧
    ∀ a b, p.Holds (.set a) → p.Holds (.set b) → p.heap.MethodFree a → p.heap.MethodFree b →
      (∀ op f, op.onMembers? = some f →
        (∃ u s, (binary op (.set a) (.set b)).runOn p.session = (.ok (.set u), s) ∧
          Combines f p a b s u) ∧
        ∃ s, (inPlace op (.set a) (.set b)).runOn p.session = (.ok (.set a), s) ∧
          Combines f p a b s a) ∧
      (∃ le ge lt gt eq,
        (compare .le (.set a) (.set b)).runOn p.session = (.ok le, p.session) ∧
        (compare .ge (.set a) (.set b)).runOn p.session = (.ok ge, p.session) ∧
        (compare .lt (.set a) (.set b)).runOn p.session = (.ok lt, p.session) ∧
        (compare .gt (.set a) (.set b)).runOn p.session = (.ok gt, p.session) ∧
        (equals (.set a) (.set b)).runOn p.session = (.ok eq, p.session) ∧
        (le = true ↔ ∀ k ∈ (p.heap.set a).keys, p.heap.Member b k.value) ∧
        (compare .le (.set b) (.set a)).runOn p.session = (.ok ge, p.session) ∧
        (compare .lt (.set b) (.set a)).runOn p.session = (.ok gt, p.session) ∧
        lt = (le && !eq) ∧ eq = (le && ge)) ∧
      ∃ u s₁ i s₂, (binary .or (.set a) (.set b)).runOn p.session = (.ok (.set u), s₁) ∧
        (binary .and (.set a) (.set b)).runOn s₁ = (.ok (.set i), s₂) ∧
        (s₂.heap.set u).size + (s₂.heap.set i).size =
          (s₂.heap.set a).size + (s₂.heap.set b).size := by
  obtain ⟨w, modeled⟩ := reachable.modeled
  have hset := modeled.models.set
  refine ⟨?_, fun s r => runOn_length r s, ?_⟩
  · intro r free
    refine ⟨Heap.distinct_of_methodFree (hset r) free, ?_⟩
    intro x n hx hash
    obtain ⟨k, rfl, key, hk⟩ := exists_key modeled hx hash
    exact ⟨_, runOn_contains key r _, (Heap.member_iff (hset r) free hk).symm⟩
  intro a b held held' ha hb
  refine ⟨?_, ?_, ?_⟩
  · intro op f hop
    obtain ⟨g, hg, agrees, sources⟩ := BinaryOp.exists_onSets hop
    obtain ⟨g', hg', keys⟩ := BinaryOp.exists_inSets hg
    obtain ⟨s, run, made, -, -⟩ := runOn_binary hg a b p.session
    obtain ⟨s', run', changed⟩ := runOn_inPlace hg' a b p.session
    refine ⟨⟨_, s, run, modeled.combines ha hb agrees sources made⟩,
      s', run', modeled.combines ha hb ?_ ?_ changed⟩
    · intro w s t k hs ht hk
      rw [Keyed.contains_of_keys (keys s t), agrees w s t k hs ht hk]
    · exact fun s t => keys s t ▸ sources s t
  · refine ⟨_, _, _, _, _, runOn_compare .le a b _, runOn_compare .ge a b _,
      runOn_compare .lt a b _, runOn_compare .gt a b _, runOn_equals a b _, ?_,
      runOn_compare .le b a _, runOn_compare .lt b a _, ?_, ?_⟩
    · refine (KeySet.isSubset_iff (hset a) (hset b)).trans (forall₂_congr ?_)
      intro k hk
      exact (Heap.member_iff (hset b) hb (Keyed.has_keys (hset a) k hk)).symm
    · exact KeySet.size_lt_and_isSubset (hset a) (hset b)
    · exact KeySet.same_eq (hset a) (hset b)
  · have size : p.session.heap.sets.size = w.extent .set := modeled.models.extent .set
    have old {r : Ref .set} (h : p.Holds (.set r)) : r.index < p.session.heap.sets.size :=
      size ▸ w.index_lt (modeled.has h) rfl
    obtain ⟨s₁, run, union, grown, keeps⟩ := @runOn_binary .or _ rfl a b p.session
    obtain ⟨s₂, run', inter, -, keeps'⟩ := @runOn_binary .and _ rfl a b s₁
    have kept {r : Ref .set} (h : p.Holds (.set r)) : s₂.heap.set r = p.heap.set r :=
      (keeps' r (grown ▸ Nat.lt_succ_of_lt (old h))).trans (keeps r (old h))
    refine ⟨_, s₁, _, s₂, run, run', ?_⟩
    rw [inter, keeps' _ (grown ▸ Nat.lt_succ_self _), union, kept held, kept held',
      keeps a (old held), keeps b (old held')]
    exact KeySet.size_union_add_size_inter (hset a) (hset b)

/-- A program that makes `{1, 2}` and `{True, 3}`. -/
def sets : Program :=
  (start [] false).run [.set [.int 0 1, .int 0 2], .set [.bool true, .int 0 3]]

theorem values_sets : sets.values = [.set ⟨1⟩, .set ⟨0⟩] := rfl

theorem reachable_sets : sets.Reachable := (Reachable.start [] false).run (by decide)

theorem holds_set (i : Fin 2) : sets.Holds (.set ⟨i⟩) := by
  refine .value (values_sets ▸ ?_)
  match i with
  | 0 => simp
  | 1 => simp

theorem methodFree_set (i : Fin 2) : sets.heap.MethodFree ⟨i⟩ := by
  have values : ∀ v ∈ (sets.heap.set ⟨i⟩).keys.map (·.value), v.methodFree = true := by
    match i with
    | 0 => exact List.forall_mem_cons.2 ⟨rfl, List.forall_mem_singleton.2 rfl⟩
    | 1 => exact List.forall_mem_cons.2 ⟨rfl, List.forall_mem_singleton.2 rfl⟩
  exact fun k hk => values _ (List.mem_map_of_mem hk)

/-- `1 in {1, 2} ^ {True, 3}` is false. -/
theorem set_algebra_of_sets :
    sets.heap.Distinct ⟨0⟩ ∧
    (length (.set ⟨0⟩)).runOn sets.session = (.ok 2, sets.session) ∧
    (∃ u s, (binary .xor (.set ⟨0⟩) (.set ⟨1⟩)).runOn sets.session = (.ok (.set u), s) ∧
      (contains (.set u) (.int 0 1)).runOn s = (.ok false, s)) ∧
    ∃ u s₁ i s₂, (binary .or (.set ⟨0⟩) (.set ⟨1⟩)).runOn sets.session = (.ok (.set u), s₁) ∧
      (binary .and (.set ⟨0⟩) (.set ⟨1⟩)).runOn s₁ = (.ok (.set i), s₂) ∧
      (s₂.heap.set u).size + (s₂.heap.set i).size =
        (s₂.heap.set ⟨0⟩).size + (s₂.heap.set ⟨1⟩).size := by
  obtain ⟨each, len, both⟩ := reachable_sets.set_algebra
  obtain ⟨operators, -, sizes⟩ :=
    both ⟨0⟩ ⟨1⟩ (holds_set 0) (holds_set 1) (methodFree_set 0) (methodFree_set 1)
  refine ⟨(each ⟨0⟩ (methodFree_set 0)).1, ?_, ?_, sizes⟩
  · obtain ⟨n, run, size⟩ := len sets.session ⟨0⟩ (by decide)
    have two : n = 2 := Int64.toInt_inj.1 size
    rw [run, two]
  · obtain ⟨⟨u, s, run, combines⟩, -⟩ := operators .xor _ rfl
    obtain ⟨inA, inB, runA, runB, answer⟩ := combines.contains (.int 0 1) _ (.shared rfl) rfl
    have left : (contains (.set ⟨0⟩) (.int 0 1)).runOn sets.session = (.ok true, sets.session) :=
      rfl
    have right : (contains (.set ⟨1⟩) (.int 0 1)).runOn sets.session = (.ok true, sets.session) :=
      rfl
    rw [left] at runA
    rw [right] at runB
    cases runA
    cases runB
    exact ⟨u, s, run, answer⟩

end Program

end ObjectModel
