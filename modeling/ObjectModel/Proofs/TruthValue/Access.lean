import Mathlib.Data.List.Find
import ObjectModel.Call.Basic
import ObjectModel.Proofs.Dict.Merge
import ObjectModel.Proofs.Order.Heap
import ObjectModel.Proofs.Slice.Subscript
import ObjectModel.Proofs.TruthValue.Operator

/-!
# Truth values in comparisons, subscripts and look-ups

A truth value and the integer that it counts as are equal to the same values, come
before and after the same values, name the same positions and the same keys. So
what is asked with the one is answered alike when it is asked with the other.

Main statements: `equals_truth`, `alike_compare_left`, `alike_compare_right`,
`alike_getItem_truth`, `alike_contains` and `range_countsAs`.
-/

namespace ObjectModel

open ObjectModel.Action

variable {s : Session}

-- ---------------------------------------------------------------------------
-- Equality
-- ---------------------------------------------------------------------------

namespace Value

theorem equalsWith_truth_left (stored : Value → Value → Bool) (b : Bool) (v : Value) :
    equalsWith stored (.bool b) v = equalsWith stored (.ofTruth b) v := by
  cases v with
  | bool c => cases b <;> cases c <;> rfl
  | int tag | str tag | tuple tag =>
    by_cases shared : tag = Tag.shared <;> cases b <;>
      simp [equalsWith, leafEquals, ofTruth, is, identity, asInt?, shared]
  | _ => cases b <;> rfl

theorem equalsWith_truth_right (stored : Value → Value → Bool) (b : Bool) (v : Value) :
    equalsWith stored v (.bool b) = equalsWith stored v (.ofTruth b) := by
  cases v with
  | bool c => cases b <;> cases c <;> rfl
  | int tag | str tag | tuple tag =>
    by_cases shared : tag = Tag.shared <;> cases b <;>
      simp [equalsWith, leafEquals, ofTruth, is, identity, asInt?, shared]
  | _ => cases b <;> rfl

end Value

theorem Heap.equals_truth (h : Heap) (b : Bool) (v : Value) :
    h.equals (.bool b) v = h.equals (.ofTruth b) v ∧
      h.equals v (.bool b) = h.equals v (.ofTruth b) :=
  ⟨Value.equalsWith_truth_left _ b v, Value.equalsWith_truth_right _ b v⟩

namespace Value.CountsAs

variable {v w : Value}

theorem equals (counts : v.CountsAs w) (h : Heap) : h.equals v w = true := by
  cases counts with
  | refl => exact h.equals_refl v
  | truth b => exact (h.equals_truth b (.ofTruth b)).1.trans (h.equals_refl _)

theorem intOf_eq (counts : v.CountsAs w) : Arguments.intOf v = Arguments.intOf w := by
  cases counts <;> rfl

theorem bound_eq (counts : v.CountsAs w) : Subscript.bound v = Subscript.bound w := by
  cases counts <;> rfl

theorem hash_eq (counts : v.CountsAs w) : v.hash = w.hash := by
  cases counts <;> rfl

theorem sameKey (counts : v.CountsAs w) : v.sameKey w = true := by
  cases counts with
  | refl => exact Value.sameKey_refl v
  | truth b => exact (equalsWith_truth_left _ b (.ofTruth b)).trans (Value.sameKey_refl _)

end Value.CountsAs

-- ---------------------------------------------------------------------------
-- Comparisons
-- ---------------------------------------------------------------------------

/-- A comparison with a number is not one of items. -/
theorem runOn_compare_leaf (op : Comparison) {a b : Value} (apart : ¬ Heap.ByItems a b)
    (s : Session) :
    (Action.compare op a b).runOn s = (s.heap.compareLeaf op a b, s) := by
  have leaf : s.heap.compare op a b = s.heap.compareLeaf op a b :=
    Heap.compareWith_of_not_byItems apart
  rw [Action.compare, runOn_bind_of_ok (runOn_heap s), leaf]
  cases s.heap.compareLeaf op a b <;> rfl

theorem alike_compare_left (op : Comparison) (b : Bool) (v : Value) :
    Alike Eq s (Action.compare op (.bool b) v) (Action.compare op (.ofTruth b) v) := by
  have left := runOn_compare_leaf op (a := .bool b) (b := v) (fun h => by cases h) s
  have right := runOn_compare_leaf op (a := .ofTruth b) (b := v) (fun h => by cases h) s
  rw [Heap.compareLeaf_of_number rfl] at left right
  cases hv : v.asInt? with
  | some n =>
    rw [hv] at left right
    exact .ok left right rfl
  | none =>
    rw [hv] at left right
    exact .error left right (.exception .type rfl rfl)

theorem alike_compare_right (op : Comparison) (v : Value) (b : Bool) :
    Alike Eq s (Action.compare op v (.bool b)) (Action.compare op v (.ofTruth b)) := by
  have left := runOn_compare_leaf op (a := v) (b := .bool b) (fun h => by cases h) s
  have right := runOn_compare_leaf op (a := v) (b := .ofTruth b) (fun h => by cases h) s
  cases v with
  | int | bool => exact .ok left right rfl
  | str | bytes | bytearray | set | list | tuple =>
    exact .error left right (.exception .type rfl rfl)
  | _ => exact .error left right (.refl _)

-- ---------------------------------------------------------------------------
-- Positions
-- ---------------------------------------------------------------------------

/-- Slices with the same bounds are made of what bounds count as. -/
theorem toSlice_countsAs {x y z x' y' z' : Value} (hx : x.CountsAs x') (hy : y.CountsAs y')
    (hz : z.CountsAs z') : Subscript.toSlice x y z = Subscript.toSlice x' y' z' := by
  rw [Subscript.toSlice, Subscript.toSlice, hx.bound_eq, hy.bound_eq, hz.bound_eq]

/-- Arguments that are the integers that others count as, in turn, make the same range. -/
theorem range_countsAs {vs ws : List Value} (counts : List.Forall₂ Value.CountsAs vs ws)
    (keywords : Table) :
    call (.type .range) ⟨vs, keywords⟩ = call (.type .range) ⟨ws, keywords⟩ := by
  have arity : Arguments.plain ⟨vs, keywords⟩ "range" 1 3 =
      Arguments.plain ⟨ws, keywords⟩ "range" 1 3 := by
    simp only [Arguments.plain, Arguments.noKeywords, Arguments.arity, counts.length_eq]
  have ints : vs.mapM (fun v => (liftM (Arguments.intOf v) : Action Int64)) =
      ws.mapM fun v => liftM (Arguments.intOf v) := by
    clear arity
    induction counts with
    | nil => rfl
    | cons first _ ih => simp only [List.mapM_cons, first.intOf_eq, ih]
  show Construct.range _ = Construct.range _
  rw [Construct.range, Construct.range, arity]
  dsimp only
  rw [ints]

-- ---------------------------------------------------------------------------
-- Keys
-- ---------------------------------------------------------------------------

namespace Key

variable {v : Value}

theorem ofValue_of_ok {n : Int64} (h : v.hash = .ok n) : ofValue v = .ok ⟨v, n, h⟩ :=
  ofValue_value ⟨v, n, h⟩

theorem ofValue_of_error {c : Cause} (h : v.hash = .error c) : ofValue v = .error c := by
  unfold ofValue
  split
  · next hn => cases h.symm.trans hn
  · next hc =>
    cases h.symm.trans hc
    rfl

/-- The key that a truth value is. -/
def ofTruth (b : Bool) : Key := ⟨.bool b, Hash.ofInt (if b then 1 else 0), rfl⟩

/-- The key that the integer is that a truth value counts as. -/
def ofCount (b : Bool) : Key := ⟨.ofTruth b, Hash.ofInt (if b then 1 else 0), rfl⟩

theorem same_truth (k : Key) (b : Bool) : k.same (ofTruth b) = k.same (ofCount b) :=
  congrArg (k.hash == Hash.ofInt (if b then 1 else 0) && ·)
    (Value.equalsWith_truth_right _ b k.value)

end Key

namespace Keyed

variable {β : Type} {t : Keyed β} {v w : Value} {k l : Key}

/-- The table has the same entry for the two values, or neither of them can be a key. -/
inductive FindsAlike (t : Keyed β) (v w : Value) : Prop
  | found {k l : Key} : Key.ofValue v = .ok k → Key.ofValue w = .ok l → t.find? k = t.find? l →
    FindsAlike t v w
  | refused {c : Cause} : Key.ofValue v = .error c → Key.ofValue w = .error c → FindsAlike t v w

theorem find?_of_same (same : ∀ e ∈ t.entries, e.1.same k = e.1.same l) :
    t.find? k = t.find? l := by
  rw [find?_eq, find?_eq, List.find?_congr same]

/-- A truth value is found where the integer is that it counts as. -/
theorem place?_truth (t : Keyed β) (b : Bool) : t.place? (.ofTruth b) = t.place? (.ofCount b) := by
  have same : (fun k : Key => k.same (.ofTruth b)) = fun k => k.same (.ofCount b) :=
    funext fun k => k.same_truth b
  simp only [place?, congrFun same]
  rfl

theorem find?_truth (t : Keyed β) (b : Bool) : t.find? (.ofTruth b) = t.find? (.ofCount b) := by
  rw [find?, find?, place?_truth]

theorem contains_truth (t : Keyed β) (b : Bool) :
    t.contains (.ofTruth b) = t.contains (.ofCount b) := by
  rw [contains, contains, place?_truth]

theorem erase_truth (t : Keyed β) (b : Bool) : t.erase (.ofTruth b) = t.erase (.ofCount b) := by
  rw [erase, erase, place?_truth]

theorem findsAlike_truth (t : Keyed β) (b : Bool) : t.FindsAlike (.bool b) (.ofTruth b) :=
  .found (Key.ofValue_value (.ofTruth b)) (Key.ofValue_value (.ofCount b)) (t.find?_truth b)

/-- Among the objects of a world, equal values with one hash code are found alike. -/
theorem findsAlike_of_sameKey [Carries β] {world : World} (ht : world.Has t) (hv : world.Has v)
    (hw : world.Has w) (codes : v.hash = w.hash) (same : v.sameKey w = true) :
    t.FindsAlike v w := by
  cases hash : v.hash with
  | error c => exact .refused (Key.ofValue_of_error hash) (Key.ofValue_of_error (codes ▸ hash))
  | ok n =>
    refine .found (Key.ofValue_of_ok hash) (Key.ofValue_of_ok (codes ▸ hash)) ?_
    refine find?_of_same fun e he => ?_
    rw [Key.same, Key.same, Value.sameKey_congr hv hw (has_key ht he) same]

end Keyed

/-- Slices of bounds that count as others are equal and have one hash code. -/
theorem slice_countsAs {x y z x' y' z' : Value} (hx : x.CountsAs x') (hy : y.CountsAs y')
    (hz : z.CountsAs z') (tag tag' : Tag) :
    (Value.slice tag x y z).hash = (Value.slice tag' x' y' z').hash ∧
      (Value.slice tag x y z).sameKey (.slice tag' x' y' z') = true := by
  constructor
  · have ex : x.hashWith .standard = x'.hashWith .standard := hx.hash_eq
    have ey : y.hashWith .standard = y'.hashWith .standard := hy.hash_eq
    have ez : z.hashWith .standard = z'.hashWith .standard := hz.hash_eq
    simp only [Value.hash, Value.hashWith, ex, ey, ez]
  · exact Value.equalsWith_of_same (.slice hx.sameKey hy.sameKey hz.sameKey)

-- ---------------------------------------------------------------------------
-- Subscripts and membership
-- ---------------------------------------------------------------------------

variable {v w : Value}

section

variable {r : Ref .dict} {k : Key} {x : Value}

theorem runOn_getItem_found (hv : Key.ofValue v = .ok k)
    (found : (s.heap.dict r).find? k = some x) : (getItem (.dict r) v).runOn s = (.ok x, s) := by
  rw [getItem, runOn_bind_of_ok (runOn_readDict r s), runOn_bind_of_ok (runOn_lift_of_ok hv s),
    found]
  rfl

theorem runOn_getItem_missing (hv : Key.ofValue v = .ok k)
    (missing : (s.heap.dict r).find? k = none) :
    (getItem (.dict r) v).runOn s = (.error (.missingKey v), s) := by
  rw [getItem, runOn_bind_of_ok (runOn_readDict r s), runOn_bind_of_ok (runOn_lift_of_ok hv s),
    missing]
  rfl

theorem runOn_getItem_refused {c : Cause} (hv : Key.ofValue v = .error c) :
    (getItem (.dict r) v).runOn s = (.error (.cause c), s) := by
  rw [getItem, runOn_bind_of_ok (runOn_readDict r s),
    runOn_bind_of_error (runOn_lift_of_error hv s)]

theorem alike_getItem_dict (finds : (s.heap.dict r).FindsAlike v w) :
    Alike Eq s (getItem (.dict r) v) (getItem (.dict r) w) := by
  cases finds with
  | @found k l hv hw same =>
    cases found : (s.heap.dict r).find? l with
    | some x =>
      exact .ok (runOn_getItem_found hv (same.trans found)) (runOn_getItem_found hw found) rfl
    | none =>
      exact .error (runOn_getItem_missing hv (same.trans found)) (runOn_getItem_missing hw found)
        (.exception .key rfl rfl)
  | refused hv hw => exact .error (runOn_getItem_refused hv) (runOn_getItem_refused hw) (.refl _)

end

/-- A truth value is the subscript that the integer is. -/
theorem alike_getItem_truth (source : Value) (b : Bool) :
    Alike Eq s (getItem source (.bool b)) (getItem source (.ofTruth b)) := by
  cases source with
  | dict r => exact alike_getItem_dict (Keyed.findsAlike_truth _ b)
  | _ => exact .of_eq (fun _ => rfl) rfl

/-- So it is when something is written, save that a dict keeps the key as it is. -/
theorem setItem_truth {target : Value} (sequence : target.kind ≠ .dict) (b : Bool) (v : Value) :
    setItem target (.bool b) v = setItem target (.ofTruth b) v := by
  cases target with
  | dict r => exact absurd rfl sequence
  | _ => rfl

theorem runOn_delItem_dict {r : Ref .dict} {k : Key} (hv : Key.ofValue v = .ok k) :
    (delItem (.dict r) v).runOn s =
      if (s.heap.dict r).contains k then (modifyDict r (·.erase k)).runOn s
      else (.error (.missingKey v), s) := by
  rw [delItem, runOn_bind_of_ok (runOn_lift_of_ok hv s), runOn_bind_of_ok (runOn_readDict r s)]
  split <;> rfl

/-- What is deleted at the integer is deleted at the truth value. -/
theorem alike_delItem (target : Value) (b : Bool) :
    Alike Eq s (delItem target (.bool b)) (delItem target (.ofTruth b)) := by
  cases target with
  | dict r =>
    have left := runOn_delItem_dict (s := s) (r := r) (Key.ofValue_value (.ofTruth b))
    have right := runOn_delItem_dict (s := s) (r := r) (Key.ofValue_value (.ofCount b))
    rw [Keyed.contains_truth] at left
    split at right
    · next there =>
      have erased : (fun t : Keyed Value => t.erase (.ofTruth b)) = fun t => t.erase (.ofCount b) :=
        funext fun t => t.erase_truth b
      rw [if_pos there, erased] at left
      exact .of_runOn (fun _ => rfl) (left.trans right.symm)
    · next absent =>
      rw [if_neg absent] at left
      exact .error left right (.exception .key rfl rfl)
  | _ => exact .of_eq (fun _ => rfl) rfl

/-- Slices of bounds that count as others select the same and are found alike. -/
theorem alike_getItem_slice {x y z x' y' z' : Value} (hx : x.CountsAs x') (hy : y.CountsAs y')
    (hz : z.CountsAs z') {tag tag' : Tag} {source : Value}
    (finds : ∀ r, source = .dict r →
      (s.heap.dict r).FindsAlike (.slice tag x y z) (.slice tag' x' y' z')) :
    Alike Eq s (getItem source (.slice tag x y z)) (getItem source (.slice tag' x' y' z')) := by
  have bounds := toSlice_countsAs hx hy hz
  cases source with
  | dict r => exact alike_getItem_dict (finds r rfl)
  | list | tuple | str | bytes | bytearray | range =>
    refine .of_runOn (fun _ => rfl) ?_
    rw [getItem, getItem, runOn_bind_of_ok (runOn_ofValue ..), runOn_bind_of_ok (runOn_ofValue ..)]
    dsimp only
    rw [bounds]
  | _ => exact .of_eq (fun _ => rfl) rfl

theorem anyEqual_truth (xs : List Value) (b : Bool) :
    anyEqual xs (.bool b) = anyEqual xs (.ofTruth b) := by
  have equal (h : Heap) : (h.equals · (.bool b)) = (h.equals · (.ofTruth b)) :=
    funext fun v => (h.equals_truth b v).2
  simp only [anyEqual, equal]

/-- What contains the integer contains the truth value. -/
theorem alike_contains (container : Value) (b : Bool) :
    Alike Eq s (contains container (.bool b)) (contains container (.ofTruth b)) := by
  have keyed {β : Type} (read : Action (Keyed β)) :
      (read >>= fun t => pure (t.contains (.ofTruth b))) =
        (read >>= fun t => (pure (t.contains (.ofCount b)) : Action Bool)) :=
    congrArg (read >>= ·) (funext fun t => congrArg pure (t.contains_truth b))
  cases container with
  | str => exact .fail rfl
  | tuple _ items => exact .of_eq (fun _ => rfl) (anyEqual_truth items b)
  | list r =>
    exact .of_eq (fun _ => rfl)
      (congrArg (readList r >>= ·) (funext fun items => anyEqual_truth items b))
  | dict r => exact .of_eq (fun _ => rfl) (keyed (readDict r))
  | set r => exact .of_eq (fun _ => rfl) (keyed (readSet r))
  | view _ part r =>
    cases part with
    | keys => exact .of_eq (fun _ => rfl) (keyed (readDict r))
    | values =>
      exact .of_eq (fun _ => rfl)
        (congrArg (readDict r >>= ·) (funext fun t => anyEqual_truth t.values b))
    | items => exact .of_eq (fun _ => rfl) rfl
  | _ => exact .of_eq (fun _ => rfl) rfl

/-- A dict has the same value for both, or the same fallback. -/
theorem alike_get (r : Ref .dict) (b : Bool) (rest : List Value) (keywords : Table) :
    Alike Eq s (callMethod (.dict r) "get".toList ⟨.bool b :: rest, keywords⟩)
      (callMethod (.dict r) "get".toList ⟨.ofTruth b :: rest, keywords⟩) := by
  have lookups : DictMethod.lookup r (.bool b) = DictMethod.lookup r (.ofTruth b) :=
    congrArg (readDict r >>= ·) (funext fun t => congrArg pure (t.find?_truth b))
  have called (v : Value) : (callMethod (.dict r) "get".toList ⟨v :: rest, keywords⟩).runOn s =
      (do
        Arguments.plain ⟨v :: rest, keywords⟩ "get" 1 2
        return (← DictMethod.lookup r v).getD ((rest[0]?).getD .none) :
        Action Value).runOn s.tick :=
    runOn_callMethod (m := .get) rfl rfl ..
  refine .of_runOn (fun _ => rfl) ?_
  rw [called, called, lookups]
  rfl

end ObjectModel
