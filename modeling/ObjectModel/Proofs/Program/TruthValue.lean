import ObjectModel.Proofs.Program.Basic
import ObjectModel.Proofs.TruthValue.Access

/-!
# Truth values are integers

A truth value is what the integer is that it counts as, for every operator and
comparison, as a subscript, in a slice, for a range and in look-ups. Only a format
shows it by its name.

Main statement: `truth_values_are_integers`.
-/

namespace ObjectModel

open ObjectModel.Action

/-- Together with the value, the truth value is what the integer is that it counts as: results
are the same or one counts as the other, and faults are alike. -/
structure Session.TakesTruth (s : Session) (b : Bool) (v : Value) : Prop where
  left (op : BinaryOp) : Alike Value.CountsAs s (binary op (.bool b) v) (binary op (.ofTruth b) v)
  right (op : BinaryOp) : (op = .mod → v.kind ≠ .str) →
    Alike Value.CountsAs s (binary op v (.bool b)) (binary op v (.ofTruth b))
  /-- a format runs alike, or shows the truth value where it would show the integer -/
  format (tag : Tag) (t : Text) : v = .str tag t →
    (binary .mod v (.bool b)).runOn s = (binary .mod v (.ofTruth b)).runOn s ∨
    ∃ zero width c before after, .conversion zero width c ∈ Percent.pieces t.chars ∧
      (c = .str ∨ c = .repr) ∧
      (binary .mod v (.bool b)).runOn s = (newChars (before ++
        Numeral.padLeft ' ' width (Value.truthText b) ++ after)).runOn s ∧
      (binary .mod v (.ofTruth b)).runOn s = (newChars (before ++
        Numeral.padLeft ' ' width (Value.countText b) ++ after)).runOn s
  before (op : Comparison) :
    Alike Eq s (Action.compare op (.bool b) v) (Action.compare op (.ofTruth b) v)
  after (op : Comparison) :
    Alike Eq s (Action.compare op v (.bool b)) (Action.compare op v (.ofTruth b))
  equals : s.heap.equals (.bool b) v = s.heap.equals (.ofTruth b) v ∧
    s.heap.equals v (.bool b) = s.heap.equals v (.ofTruth b)
  subscript : Alike Eq s (getItem v (.bool b)) (getItem v (.ofTruth b))
  write : v.kind ≠ .dict → ∀ x, setItem v (.bool b) x = setItem v (.ofTruth b) x
  delete : Alike Eq s (delItem v (.bool b)) (delItem v (.ofTruth b))
  member : Alike Eq s (contains v (.bool b)) (contains v (.ofTruth b))
  get (r : Ref .dict) : v = .dict r → ∀ rest keywords,
    Alike Eq s (callMethod v "get".toList ⟨.bool b :: rest, keywords⟩)
      (callMethod v "get".toList ⟨.ofTruth b :: rest, keywords⟩)

namespace Program

variable {p : Program}

/-- In a program, slices of bounds that count as others select the same and are found alike. -/
theorem Reachable.getItem_slice_countsAs (reachable : p.Reachable) {x y z x' y' z' : Value}
    {tag tag' : Tag} (hx : x.CountsAs x') (hy : y.CountsAs y') (hz : z.CountsAs z')
    (held : p.Holds (.slice tag x y z)) (held' : p.Holds (.slice tag' x' y' z')) (source : Value) :
    Alike Eq p.session (getItem source (.slice tag x y z))
      (getItem source (.slice tag' x' y' z')) := by
  obtain ⟨w, modeled⟩ := reachable.modeled
  obtain ⟨codes, same⟩ := slice_countsAs hx hy hz tag tag'
  refine alike_getItem_slice hx hy hz fun r _ => ?_
  exact Keyed.findsAlike_of_sameKey (modeled.models.dict r) (modeled.has held)
    (modeled.has held') codes same

/-- A truth value behaves as the integer that it counts as: under the unary operators, with any
other value on either side of the others, in slices and as an argument of `range`. Values of which
one counts as the other are equal everywhere. -/
theorem truth_values_are_integers :
    (∀ op b, unary op (.bool b) = unary op (.ofTruth b)) ∧
    (∀ (s : Session) (b : Bool) (v : Value), s.TakesTruth b v) ∧
    (∀ p : Program, p.Reachable → ∀ (x y z x' y' z' : Value) (tag tag' : Tag), x.CountsAs x' →
      y.CountsAs y' → z.CountsAs z' → p.Holds (.slice tag x y z) → p.Holds (.slice tag' x' y' z') →
      ∀ source, Alike Eq p.session (getItem source (.slice tag x y z))
        (getItem source (.slice tag' x' y' z'))) ∧
    (∀ vs ws keywords, List.Forall₂ Value.CountsAs vs ws →
      call (.type .range) ⟨vs, keywords⟩ = call (.type .range) ⟨ws, keywords⟩) ∧
    ∀ v w : Value, v.CountsAs w → ∀ h : Heap, h.equals v w = true := by
  refine ⟨unary_eq_ofTruth, fun s b v => ?_, ?_, fun vs ws keywords counts =>
    range_countsAs counts keywords, fun v w counts h => counts.equals h⟩
  · exact {
      left := fun op => alike_binary_left op b v
      right := fun op => alike_binary_right op v b
      format := by
        rintro tag t rfl
        exact runOn_format_truth tag t b s
      before := fun op => alike_compare_left op b v
      after := fun op => alike_compare_right op v b
      equals := s.heap.equals_truth b v
      subscript := alike_getItem_truth v b
      write := fun sequence x => setItem_truth sequence b x
      delete := alike_delItem v b
      member := alike_contains v b
      get := by
        rintro r rfl rest keywords
        exact alike_get r b rest keywords }
  · intro p reachable x y z x' y' z' tag tag' hx hy hz held held' source
    exact reachable.getItem_slice_countsAs hx hy hz held held' source

/-- A program that has made `{}`, `slice(True)` and `slice(1)`. -/
def truncating : Program :=
  (start [] false).run
    [.dict [], .slice .none (.bool true) .none, .slice .none (.ofTruth true) .none]

theorem reachable_truncating : truncating.Reachable :=
  (Reachable.start [] false).run (by decide)

/-- `{}[slice(True)]` and `{}[slice(1)]` fail alike, `"ab" * True` and `"ab" * 1` end alike, and
so do `[] < True` and `[] < 1`; `range(True, 7)` is `range(1, 7)` and `True == 1`. -/
theorem truth_values_are_integers_of_truncating :
    let s := truncating.session
    let text := Value.str 0 (.ofString "ab")
    Alike Eq s (getItem (.dict ⟨0⟩) (.slice 1 .none (.bool true) .none))
      (getItem (.dict ⟨0⟩) (.slice 2 .none (.ofTruth true) .none)) ∧
    Alike Value.CountsAs s (binary .mul text (.bool true)) (binary .mul text (.ofTruth true)) ∧
    Alike Eq s (Action.compare .lt (.list ⟨0⟩) (.bool true))
      (Action.compare .lt (.list ⟨0⟩) (.ofTruth true)) ∧
    call (.type .range) ⟨[.bool true, .int 0 7], ∅⟩ =
      call (.type .range) ⟨[.ofTruth true, .int 0 7], ∅⟩ ∧
    s.heap.equals (.bool true) (.ofTruth true) = true := by
  intro s text
  obtain ⟨-, takes, slices, ranges, equal⟩ := truth_values_are_integers
  have held (n : Nat) (v : Value) (hv : truncating.values[n]? = some v) : truncating.Holds v :=
    .value (List.mem_of_getElem? hv)
  refine ⟨?_, (takes s true text).right .mul (fun h => by cases h), (takes s true _).after .lt,
    ranges _ _ ∅ (.cons (.truth true) (.cons (.refl _) .nil)), equal _ _ (.truth true) s.heap⟩
  exact slices truncating reachable_truncating _ _ _ _ _ _ 1 2 (.refl _) (.truth true) (.refl _)
    (held 1 _ rfl) (held 0 _ rfl) _

end Program

end ObjectModel
