import ObjectModel.Proofs.Encoding.Order
import ObjectModel.Proofs.Program.Identity
import ObjectModel.Proofs.Program.Order
import ObjectModel.Proofs.Sequence.Repetition

/-!
# The order of texts

Texts are compared by their bytes, which orders them as the numbers of their characters do.
Texts of which neither comes first are the same, and texts that start alike are ordered as
what follows.

Main statement: `Text.ordered_by_code_points`.
-/

namespace ObjectModel

open ObjectModel.Action (binary compare equals)

namespace Text

/-- The numbers of the characters. -/
def codePoints (t : Text) : List Nat := t.chars.map Char.toNat

variable {s t : Text}

theorem order_eq (s t : Text) : s.order t = Ord.compare s.codePoints t.codePoints := by
  rw [order, compareBytes_eq]
  exact Utf8.compare_encode ..

theorem order_eq_eq_iff : s.order t = .eq ↔ s = t := by
  rw [order, compareBytes_eq, Std.LawfulEqOrd.compare_eq_iff_eq]
  exact ⟨fun same => ext_chars (Utf8.encode_inj same), congrArg bytes⟩

theorem same_iff : s.same t = true ↔ s = t := by
  rw [same, Bool.and_eq_true, beq_iff_eq, beq_iff_eq]
  exact ⟨fun same => ext_chars (Utf8.encode_inj same.2), fun same => same ▸ ⟨rfl, rfl⟩⟩

/-- A common start does not matter. -/
theorem order_concat (u s t : Text) : (u.concat s).order (u.concat t) = s.order t := by
  simp only [order, compareBytes_eq, bytes, chars_concat, Utf8.encode_append,
    Utf8.compare_append_left]

end Text

-- ---------------------------------------------------------------------------
-- Operations on texts
-- ---------------------------------------------------------------------------

theorem Heap.compare_texts (h : Heap) (op : Comparison) (tag tag' : Tag) (s t : Text) :
    h.compare op (.str tag s) (.str tag' t) = .ok (op.holds (s.order t)) := rfl

/-- Texts are equal as values when they are the same, unless they pass for one object. -/
theorem Heap.equals_texts (h : Heap) {tag tag' : Tag} {s t : Text}
    (apart : (Value.str tag s).is (.str tag' t) = true → s = t) :
    h.equals (.str tag s) (.str tag' t) = true ↔ s = t := by
  simp only [equals, depth, equalsAt, Value.equalsWith, Value.leafEquals, Bool.or_eq_true,
    beq_iff_eq]
  exact ⟨fun h => h.elim apart Text.ext_chars, fun same => .inr (congrArg Text.chars same)⟩

namespace Action

/-- Compares what is made by putting a value before two others. -/
def compareSums (op : Comparison) (u a b : Value) : Action Bool := do
  compare op (← binary .add u a) (← binary .add u b)

theorem runOn_add_texts (tag tag' : Tag) (s t : Text) (start : Session) :
    ∃ made fresh, (binary .add (.str tag s) (.str tag' t)).runOn start =
      (.ok (.str made (s.concat t)), start.reach fresh) :=
  runOn_makeUnless (s.concat t).isEmpty (.str · (s.concat t)) start

theorem runOn_compareSums (op : Comparison) (tag tag₁ tag₂ : Tag) (u s t : Text) (start : Session) :
    ∃ fresh, (compareSums op (.str tag u) (.str tag₁ s) (.str tag₂ t)).runOn start =
      (.ok (op.holds (s.order t)), start.reach fresh) := by
  obtain ⟨made, fresh, first⟩ := runOn_add_texts tag tag₁ u s start
  obtain ⟨made', fresh', second⟩ := runOn_add_texts tag tag₂ u t (start.reach fresh)
  refine ⟨fresh', ?_⟩
  rw [compareSums, runOn_bind_of_ok first, runOn_bind_of_ok second, ← Text.order_concat u s t]
  rfl

end Action

namespace Text

/-- Texts compare, by their bytes and with each of the four operators, as the numbers of their
characters do, and are the same exactly if these are. What is made by putting one text before
both compares as they do. -/
theorem ordered_by_code_points (s t : Text) :
    let o := Ord.compare s.codePoints t.codePoints
    s.order t = o ∧ s.same t = o.isEq ∧
    (∀ (p : Program) (tag tag' : Tag) (op : Comparison),
      p.Finds (compare op (.str tag s) (.str tag' t)) (op.holds o)) ∧
    (∀ (p : Program) (tag tag' : Tag), p.Reachable → p.Holds (.str tag s) →
      p.Holds (.str tag' t) → p.Finds (equals (.str tag s) (.str tag' t)) o.isEq) ∧
    ∀ (u : Text) (p : Program) (tag tag₁ tag₂ : Tag) (op : Comparison), ∃ fresh,
      (Action.compareSums op (.str tag u) (.str tag₁ s) (.str tag₂ t)).runOn p.session =
        (.ok (op.holds o), p.session.reach fresh) := by
  intro o
  have order : s.order t = o := order_eq s t
  have same : o.isEq = true ↔ s = t := by
    rw [← order, Ordering.isEq_iff_eq_eq, order_eq_eq_iff]
  refine ⟨order, Bool.eq_iff_iff.2 (same_iff.trans same.symm), ?_, ?_, ?_⟩
  · intro p tag tag' op
    rw [Program.finds_compare_iff, Heap.compare_texts, order]
  · intro p tag tag' reachable hs ht
    have apart (one : (Value.str tag s).is (.str tag' t) = true) : s = t :=
      (Value.str.inj ((reachable.is_iff_eq hs ht).1 one)).2
    have equal := Bool.eq_iff_iff.2 ((p.heap.equals_texts apart).trans same.symm)
    exact congrArg (fun b => (Except.ok b, p.session)) equal
  · intro u p tag tag₁ tag₂ op
    rw [← order]
    exact Action.runOn_compareSums op tag tag₁ tag₂ u s t p.session

end Text

namespace Program

open ObjectModel.Action (compareSums)

/-- A program that makes the texts of the characters U+FFFF and U+10000, of three and of four
bytes. -/
def edges : Program :=
  (start [] false).run [.text (.ofChar '\uFFFF'), .text (.ofChar (Char.ofNat 0x10000))]

theorem reachable_edges : edges.Reachable := (Reachable.start [] false).run (by decide)

/-- The one is not equal to the other and comes before it, also when both follow `é`. -/
theorem ordered_by_code_points_of_edges :
    let first := Value.str 1 (.ofChar '\uFFFF')
    let second := Value.str 2 (.ofChar (Char.ofNat 0x10000))
    edges.Finds (equals first second) false ∧ edges.Finds (compare .lt first second) true ∧
    ∃ fresh, (compareSums .lt (.str 3 (.ofChar 'é')) first second).runOn edges.session =
      (.ok true, edges.session.reach fresh) := by
  intro first second
  obtain ⟨-, -, compares, equal, sums⟩ :=
    Text.ordered_by_code_points (.ofChar '\uFFFF') (.ofChar (Char.ofNat 0x10000))
  have holds (i : Nat) (v : Value) (hv : edges.values[i]? = some v) : edges.Holds v :=
    .value (List.mem_of_getElem? hv)
  exact ⟨equal edges 1 2 reachable_edges (holds 1 _ rfl) (holds 0 _ rfl),
    compares edges 1 2 .lt, sums (.ofChar 'é') edges 3 1 2 .lt⟩

end Program

end ObjectModel
