import Mathlib.Logic.Relation
import ObjectModel.Proofs.Run

/-!
# Class tests try leaves

A kind is tested against all that a class test is made of besides tuples, from left to right
and at whatever depth. A kind that it inherits from ends the test, and so does what is no
kind: whichever comes first decides.

Main statement: `ClassInfo.tests_leaves`.
-/

namespace ObjectModel

-- ---------------------------------------------------------------------------
-- Inheritance
-- ---------------------------------------------------------------------------

namespace Kind

/-- To be a kind or to inherit from it, base by base. -/
def Inherits : Kind → Kind → Prop := Relation.ReflTransGen fun k b => k.base? = some b

variable {k b t : Kind}

theorem lineage_of_base? (h : k.base? = some b) : k.lineage = k :: b.lineage := by
  rw [lineage_eq_cons, h]

theorem inherits_of_mem_lineage (h : t ∈ k.lineage) : k.Inherits t := by
  -- on the lineage, which goes on with that of the base
  induction n : k.lineage.length using Nat.strongRecOn generalizing k with
  | _ n ih =>
    subst n
    cases hb : k.base? with
    | none =>
      rw [lineage_eq_cons, hb] at h
      cases List.mem_singleton.1 h
      exact .refl
    | some b =>
      have line := lineage_of_base? hb
      rw [line] at h
      rcases List.mem_cons.1 h with rfl | further
      · exact .refl
      · exact .head hb (ih _ (by simp [line]) further rfl)

theorem isA_iff : k.isA t = true ↔ k.Inherits t := by
  rw [isA, List.contains_iff_mem]
  refine ⟨inherits_of_mem_lineage, fun h => ?_⟩
  induction h using Relation.ReflTransGen.head_induction_on with
  | refl =>
    rw [lineage_eq_cons]
    exact List.mem_cons_self ..
  | head hb _ ih =>
    rw [lineage_of_base? hb]
    exact List.mem_cons_of_mem _ ih

end Kind

-- ---------------------------------------------------------------------------
-- Leaves
-- ---------------------------------------------------------------------------

namespace Value

mutual
/-- What a value nests in tuples, from left to right. -/
def leaves : Value → List Value
  | .tuple _ items => leavesAll items
  | v => [v]

def leavesAll : List Value → List Value
  | [] => []
  | v :: vs => leaves v ++ leavesAll vs
end

def IsKind (v : Value) : Prop := ∃ t, v = .type t

/-- The value is the kind, or one that it inherits from. -/
def IsKindOf (k : Kind) (v : Value) : Prop := ∃ t, v = .type t ∧ k.Inherits t

theorem IsKindOf.isKind {k : Kind} {v : Value} (h : v.IsKindOf k) : v.IsKind :=
  let ⟨t, ht, _⟩ := h
  ⟨t, ht⟩

@[simp] theorem isKind_type (t : Kind) : (Value.type t).IsKind := ⟨t, rfl⟩

@[simp] theorem isKindOf_type {k t : Kind} : (Value.type t).IsKindOf k ↔ k.isA t = true := by
  rw [Kind.isA_iff]
  exact ⟨fun ⟨_, rfl, inherits⟩ => inherits, fun inherits => ⟨t, rfl, inherits⟩⟩

theorem leavesAll_append (vs us : List Value) :
    leavesAll (vs ++ us) = leavesAll vs ++ leavesAll us := by
  induction vs with
  | nil => rfl
  | cons v vs ih => rw [List.cons_append, leavesAll, ih, leavesAll, List.append_assoc]

mutual
/-- Leaves nest nothing more. -/
theorem leavesAll_leaves (v : Value) : leavesAll v.leaves = v.leaves := by
  cases v with
  | tuple tag items => exact leavesAll_leavesAll items
  | _ => rfl

theorem leavesAll_leavesAll (vs : List Value) : leavesAll (leavesAll vs) = leavesAll vs := by
  cases vs with
  | nil => rfl
  | cons v vs =>
    rw [leavesAll, leavesAll_append, leavesAll_leaves v, leavesAll_leavesAll vs]
end

end Value

namespace ClassInfo

variable {name : String} {k : Kind} {vs : List Value} {v : Value}

/-- Tries values that are no tuples one after the other. -/
def tryLeaves (name : String) (k : Kind) : List Value → Except Cause Bool
  | [] => .ok false
  | .type t :: vs => if k.isA t then .ok true else tryLeaves name k vs
  | _ :: _ => .error (.classInfo name)

/-- The second leaves are tried if the first ones do not decide. -/
theorem tryLeaves_append (name : String) (k : Kind) (xs ys : List Value) :
    tryLeaves name k (xs ++ ys) =
      match tryLeaves name k xs with
      | .ok false => tryLeaves name k ys
      | r => r := by
  induction xs with
  | nil => rfl
  | cons v xs ih =>
    cases v with
    | type t =>
      rw [List.cons_append, tryLeaves, tryLeaves]
      split
      · rfl
      · exact ih
    | _ => rfl

mutual
theorem admits_eq (name : String) (k : Kind) (v : Value) :
    admits name k v = tryLeaves name k v.leaves := by
  cases v with
  | tuple tag items => exact admitsAny_eq name k items
  | type t =>
    simp only [admits, Value.leaves, tryLeaves]
    cases k.isA t <;> rfl
  | _ => rfl

theorem admitsAny_eq (name : String) (k : Kind) (vs : List Value) :
    admitsAny name k vs = tryLeaves name k (Value.leavesAll vs) := by
  cases vs with
  | nil => rfl
  | cons v vs =>
    rw [admitsAny, admits_eq name k v, admitsAny_eq name k vs, Value.leavesAll]
    exact (tryLeaves_append ..).symm
end

/-- Some value has the one property, and none before it the other. -/
def ComesFirst (P Q : Value → Prop) (vs : List Value) : Prop :=
  ∃ front v back, vs = front ++ v :: back ∧ P v ∧ ∀ u ∈ front, ¬ Q u

theorem not_comesFirst_nil {P Q : Value → Prop} : ¬ ComesFirst P Q [] := by
  rintro ⟨front, v, back, split, -⟩
  simp at split

theorem comesFirst_cons {P Q : Value → Prop} :
    ComesFirst P Q (v :: vs) ↔ P v ∨ ¬ Q v ∧ ComesFirst P Q vs := by
  constructor
  · rintro ⟨front, u, back, split, here, before⟩
    cases front with
    | nil =>
      cases split
      exact .inl here
    | cons w front =>
      cases split
      obtain ⟨first, rest⟩ := List.forall_mem_cons.1 before
      exact .inr ⟨first, front, u, back, rfl, here, rest⟩
  · rintro (here | ⟨first, front, u, back, rfl, here, rest⟩)
    · exact ⟨[], v, vs, rfl, here, List.forall_mem_nil _⟩
    · exact ⟨v :: front, u, back, rfl, here, List.forall_mem_cons.2 ⟨first, rest⟩⟩

theorem tryLeaves_cons_of_isKindOf (h : v.IsKindOf k) : tryLeaves name k (v :: vs) = .ok true := by
  obtain ⟨t, rfl, inherits⟩ := h
  exact if_pos (Kind.isA_iff.2 inherits)

theorem tryLeaves_cons_of_isKind (kind : v.IsKind) (h : ¬ v.IsKindOf k) :
    tryLeaves name k (v :: vs) = tryLeaves name k vs := by
  obtain ⟨t, rfl⟩ := kind
  exact if_neg (mt Value.isKindOf_type.2 h)

theorem tryLeaves_cons_of_not_isKind (h : ¬ v.IsKind) :
    tryLeaves name k (v :: vs) = .error (.classInfo name) := by
  cases v with
  | type t => exact absurd (Value.isKind_type t) h
  | _ => rfl

/-- What one leaf decides, and what it leaves to the others. -/
theorem tryLeaves_cons (name : String) (k : Kind) (v : Value) (vs : List Value) :
    v.IsKindOf k ∧ tryLeaves name k (v :: vs) = .ok true ∨
    (v.IsKind ∧ ¬ v.IsKindOf k) ∧ tryLeaves name k (v :: vs) = tryLeaves name k vs ∨
    ¬ v.IsKind ∧ tryLeaves name k (v :: vs) = .error (.classInfo name) := by
  by_cases kind : v.IsKind
  · by_cases h : v.IsKindOf k
    · exact .inl ⟨h, tryLeaves_cons_of_isKindOf h⟩
    · exact .inr (.inl ⟨⟨kind, h⟩, tryLeaves_cons_of_isKind kind h⟩)
  · exact .inr (.inr ⟨kind, tryLeaves_cons_of_not_isKind kind⟩)

/-- A kind passes if one that it inherits from comes before all that is no kind. -/
theorem tryLeaves_eq_true_iff :
    tryLeaves name k vs = .ok true ↔ ComesFirst (·.IsKindOf k) (¬ ·.IsKind) vs := by
  induction vs with
  | nil => exact iff_of_false nofun not_comesFirst_nil
  | cons v vs ih =>
    rw [comesFirst_cons]
    rcases tryLeaves_cons name k v vs with ⟨here, eq⟩ | ⟨⟨kind, other⟩, eq⟩ | ⟨other, eq⟩
    · exact iff_of_true eq (.inl here)
    · rw [eq, ih]
      simp only [kind, other, not_true_eq_false, not_false_eq_true, false_or, true_and]
    · rw [eq]
      refine iff_of_false nofun ?_
      rintro (here | ⟨kind, -⟩)
      · exact other here.isKind
      · exact kind other

/-- What is no kind is an error if it comes before all that the kind inherits from. -/
theorem tryLeaves_eq_error_iff {c : Cause} :
    tryLeaves name k vs = .error c ↔
      c = .classInfo name ∧ ComesFirst (¬ ·.IsKind) (·.IsKindOf k) vs := by
  induction vs with
  | nil => exact iff_of_false nofun fun h => not_comesFirst_nil h.2
  | cons v vs ih =>
    rw [comesFirst_cons]
    rcases tryLeaves_cons name k v vs with ⟨here, eq⟩ | ⟨⟨kind, other⟩, eq⟩ | ⟨other, eq⟩
    · rw [eq]
      refine iff_of_false nofun ?_
      rintro ⟨-, other | ⟨other, -⟩⟩
      · exact other here.isKind
      · exact other here
    · rw [eq, ih]
      simp only [kind, other, not_true_eq_false, not_false_eq_true, false_or, true_and]
    · rw [eq, Except.error.injEq]
      exact ⟨fun same => ⟨same.symm, .inl other⟩, fun h => h.1.symm⟩

/-- A kind does not pass if all are kinds that it does not inherit from. -/
theorem tryLeaves_eq_false_iff :
    tryLeaves name k vs = .ok false ↔ ∀ v ∈ vs, v.IsKind ∧ ¬ v.IsKindOf k := by
  induction vs with
  | nil => exact iff_of_true rfl (List.forall_mem_nil _)
  | cons v vs ih =>
    rw [List.forall_mem_cons]
    rcases tryLeaves_cons name k v vs with ⟨here, eq⟩ | ⟨passed, eq⟩ | ⟨other, eq⟩
    · rw [eq]
      exact iff_of_false nofun fun h => h.1.2 here
    · rw [eq, ih, and_iff_right passed]
    · rw [eq]
      exact iff_of_false nofun fun h => other h.1.1

end ClassInfo

-- ---------------------------------------------------------------------------
-- Calls
-- ---------------------------------------------------------------------------

namespace Action

/-- `isinstance(x, info)` -/
def testInstance (x info : Value) : Action Value := call (.builtin .isinstance) ⟨[x, info], ∅⟩

/-- `issubclass(type(x), info)` -/
def testKind (x info : Value) : Action Value := do
  call (.builtin .issubclass) ⟨[← call (.type .type) (.single x), info], ∅⟩

/-- Ends as trying the leaves does. -/
def testLeaves (name : String) (k : Kind) (leaves : List Value) : Action Value := do
  return .bool (← ClassInfo.tryLeaves name k leaves)

theorem runOn_testInstance (x info : Value) (s : Session) :
    (testInstance x info).runOn s = (testLeaves "isinstance" x.kind info.leaves).runOn s := by
  rw [testLeaves, ← ClassInfo.admits_eq]
  rfl

theorem runOn_testKind (x info : Value) (s : Session) :
    (testKind x info).runOn s = (testLeaves "issubclass" x.kind info.leaves).runOn s := by
  rw [testLeaves, ← ClassInfo.admits_eq]
  rfl

end Action

namespace ClassInfo

open ObjectModel.Action (testInstance testKind testLeaves)

/-- The test of a kind ends as the leaves say. It changes nothing. -/
structure Tests (test : Action Value) (s : Session) (k : Kind) (leaves : List Value) : Prop where
  passes : test.runOn s = (.ok (.bool true), s) ↔ ComesFirst (·.IsKindOf k) (¬ ·.IsKind) leaves
  stops : (∃ c : Cause, c.kind = .type ∧ test.runOn s = (.error (.cause c), s)) ↔
    ComesFirst (¬ ·.IsKind) (·.IsKindOf k) leaves
  fails : test.runOn s = (.ok (.bool false), s) ↔ ∀ v ∈ leaves, v.IsKind ∧ ¬ v.IsKindOf k

theorem tests_of_runOn {test : Action Value} {s : Session}
    (run : test.runOn s = (testLeaves name k vs).runOn s) : Tests test s k vs := by
  have answers (b : Bool) : test.runOn s = (.ok (.bool b), s) ↔ tryLeaves name k vs = .ok b := by
    rw [run, testLeaves, Action.runOn_bind]
    cases tryLeaves name k vs with
    | ok b' => simp [Action.runOn_lift_of_ok rfl]
    | error c => simp [Action.runOn_lift_of_error rfl]
  have raises (c : Cause) :
      test.runOn s = (.error (.cause c), s) ↔ tryLeaves name k vs = .error c := by
    rw [run, testLeaves, Action.runOn_bind]
    cases tryLeaves name k vs with
    | ok b => simp [Action.runOn_lift_of_ok rfl]
    | error c' => simp [Action.runOn_lift_of_error rfl]
  refine ⟨(answers true).trans tryLeaves_eq_true_iff, ?_,
    (answers false).trans tryLeaves_eq_false_iff⟩
  simp only [raises, tryLeaves_eq_error_iff]
  exact ⟨fun ⟨_, _, _, stops⟩ => stops, fun stops => ⟨_, rfl, rfl, stops⟩⟩

/-- `isinstance(x, info)` and `issubclass(type(x), info)` end alike, as the leaves of `info`
say; how these are nested does not matter. -/
theorem tests_leaves (s : Session) (x info : Value) :
    Tests (testInstance x info) s x.kind info.leaves ∧
    Tests (testKind x info) s x.kind info.leaves ∧
    (∀ other : Value, other.leaves = info.leaves →
      (testInstance x other).runOn s = (testInstance x info).runOn s ∧
      (testKind x other).runOn s = (testKind x info).runOn s) ∧
    ∀ tag, (Value.tuple tag info.leaves).leaves = info.leaves := by
  refine ⟨tests_of_runOn (Action.runOn_testInstance x info s),
    tests_of_runOn (Action.runOn_testKind x info s), fun other same => ?_,
    fun _ => Value.leavesAll_leaves info⟩
  simp only [Action.runOn_testInstance, Action.runOn_testKind, same, and_self]

/-- With `((), (str, (int, 1)))`, as with `(str, int, 1)`, the test of `True` ends before the 1
and that of `None` does not. -/
theorem tests_leaves_of_nested :
    let s := Session.start [] false
    let nested := Value.tuple 3
      [.tuple Tag.shared [], .tuple 2 [.type .str, .tuple 1 [.type .int, .int 0 1]]]
    let flat := Value.tuple 4 [.type .str, .type .int, .int 0 1]
    (testInstance (.bool true) nested).runOn s = (.ok (.bool true), s) ∧
    (testKind (.bool true) flat).runOn s = (.ok (.bool true), s) ∧
    ∃ c : Cause, c.kind = .type ∧ (testInstance .none flat).runOn s = (.error (.cause c), s) := by
  intro s nested flat
  obtain ⟨instances, kinds, regrouped, -⟩ := tests_leaves s (.bool true) nested
  obtain ⟨nones, -⟩ := tests_leaves s .none flat
  have comes : ComesFirst (·.IsKindOf .bool) (¬ ·.IsKind) nested.leaves := by
    refine ⟨[.type .str], .type .int, [.int 0 1], rfl, Value.isKindOf_type.2 (by decide), ?_⟩
    simp
  have stops : ComesFirst (¬ ·.IsKind) (·.IsKindOf .none) flat.leaves := by
    refine ⟨[.type .str, .type .int], .int 0 1, [], rfl, nofun, ?_⟩
    simp only [List.forall_mem_cons, Value.isKindOf_type]
    exact ⟨by decide, by decide, List.forall_mem_nil _⟩
  exact ⟨instances.passes.2 comes, (regrouped flat rfl).2.trans (kinds.passes.2 comes),
    nones.stops.2 stops⟩

end ClassInfo

end ObjectModel
