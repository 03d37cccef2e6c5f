import ObjectModel.Proofs.Order.Heap
import ObjectModel.Proofs.Program.Basic

/-!
# Comparisons in programs

Plain values that a program holds are compared with `<`, `<=`, `>` and `>=` as
the data that they stand for. Where two of these have no order, whichever way
they are compared is a `TypeError`.

Main statement: `Reachable.comparisons_lawful`.
-/

namespace ObjectModel

open ObjectModel.Action (compare equals)

namespace Program

/-- Asking the question gives the answer and changes nothing. -/
def Finds (p : Program) (question : Action Bool) (answer : Bool) : Prop :=
  question.runOn p.session = (.ok answer, p.session)

/-- Asking the question raises a `TypeError` and changes nothing. -/
def Refuses (p : Program) (question : Action Bool) : Prop :=
  ∃ c : Cause, question.runOn p.session = (.error (.cause c), p.session) ∧ c.kind = .type

variable {p : Program} {op : Comparison} {a b c : Value} {d e : Datum} {o : Ordering}
  {answer : Bool}

theorem runOn_comparison (p : Program) (op : Comparison) (a b : Value) :
    (compare op a b).runOn p.session = (p.heap.compare op a b, p.session) := by
  rw [Action.compare, Action.runOn_bind_of_ok (Action.runOn_heap _)]
  split <;> next found => exact congrArg (·, p.session) found.symm

theorem finds_compare_iff :
    p.Finds (compare op a b) answer ↔ p.heap.compare op a b = .ok answer := by
  rw [Finds, runOn_comparison, Prod.mk.injEq, and_iff_left rfl]

theorem finds_of_answers (answers : op.Answers (some o) (p.heap.compare op a b)) :
    p.Finds (compare op a b) (op.holds o) :=
  finds_compare_iff.2 answers

theorem refuses_of_answers (answers : op.Answers none (p.heap.compare op a b)) :
    p.Refuses (compare op a b) := by
  obtain ⟨left, right, refused⟩ := answers
  exact ⟨.comparison op.symbol left right, by rw [runOn_comparison, refused], rfl⟩

section
variable {w : World} (modeled : Modeled w p)
include modeled

/-- Plain values are compared as what they stand for. -/
theorem Modeled.answers (ha : p.Holds a) (hb : p.Holds b) (plain : p.heap.Plain a)
    (hd : p.heap.Denotes a d) (he : p.heap.Denotes b e) (op : Comparison) :
    op.Answers (d.order? e) (p.heap.compare op a b) :=
  hd.answers modeled.models (modeled.has ha) (modeled.has hb) plain.acyclic he op

theorem Modeled.finds_equals (ha : p.Holds a) (hb : p.Holds b) (plain : p.heap.Plain a)
    (hd : p.heap.Denotes a d) (he : p.heap.Denotes b e) (order : d.order? e = some o) :
    p.Finds (equals a b) o.isEq := by
  have same := hd.equals_iff modeled.models (modeled.has ha) (modeled.has hb) plain.acyclic he
  rw [← Datum.order?_eq_iff, order] at same
  have equal : p.heap.equals a b = o.isEq := by
    rw [Bool.eq_iff_iff, same]
    cases o <;> simp
  exact congrArg (fun b => (Except.ok b, p.session)) equal

theorem Modeled.finds_lt_trans (ha : p.Holds a) (hb : p.Holds b) (hc : p.Holds c)
    (plain : p.heap.Plain a) (plain' : p.heap.Plain b) (plain'' : p.heap.Plain c)
    (ab : p.Finds (compare .lt a b) true) (bc : p.Finds (compare .lt b c) true) :
    p.Finds (compare .lt a c) true := by
  obtain ⟨d, hd⟩ := plain.exists_denotes
  obtain ⟨e, he⟩ := plain'.exists_denotes
  obtain ⟨f, hf⟩ := plain''.exists_denotes
  rw [finds_compare_iff] at ab bc ⊢
  rw [(modeled.answers ha hb plain hd he .lt).lt_iff] at ab
  rw [(modeled.answers hb hc plain' he hf .lt).lt_iff] at bc
  rw [(modeled.answers ha hc plain hd hf .lt).lt_iff]
  exact Datum.order?_trans ab bc

end

/-- Of two plain values, `a < b`, `a <= b`, `b > a` and `b >= a` are all refused
or all answered. If they are answered then exactly one of `a < b`, `a == b` and
`b < a` holds, and `a <= b` where one of the first two does. Where `a < b` and
`b < c` hold, so does `a < c`. -/
theorem Reachable.comparisons_lawful (reachable : p.Reachable) :
    (∀ a b, p.Holds a → p.Holds b → p.heap.Plain a → p.heap.Plain b →
      (p.Refuses (compare .lt a b) ∧ p.Refuses (compare .le a b) ∧
        p.Refuses (compare .gt b a) ∧ p.Refuses (compare .ge b a)) ∨
      ∃ before same after : Bool, [before, same, after].count true = 1 ∧
        p.Finds (compare .lt a b) before ∧ p.Finds (equals a b) same ∧
        p.Finds (compare .lt b a) after ∧ p.Finds (compare .le a b) (before || same) ∧
        p.Finds (compare .gt b a) before ∧ p.Finds (compare .ge b a) (before || same)) ∧
    ∀ a b c, p.Holds a → p.Holds b → p.Holds c →
      p.heap.Plain a → p.heap.Plain b → p.heap.Plain c →
      p.Finds (compare .lt a b) true → p.Finds (compare .lt b c) true →
      p.Finds (compare .lt a c) true := by
  obtain ⟨w, modeled⟩ := reachable.modeled
  refine ⟨?_, fun a b c => modeled.finds_lt_trans⟩
  intro a b ha hb plain plain'
  obtain ⟨d, hd⟩ := plain.exists_denotes
  obtain ⟨e, he⟩ := plain'.exists_denotes
  have forth := modeled.answers ha hb plain hd he
  have back := modeled.answers hb ha plain' he hd
  rw [Datum.order?_swap d e] at back
  cases order : d.order? e with
  | none =>
    rw [order] at forth back
    exact .inl ⟨refuses_of_answers (forth .lt), refuses_of_answers (forth .le),
      refuses_of_answers (back .gt), refuses_of_answers (back .ge)⟩
  | some o =>
    rw [order] at forth back
    have equal := modeled.finds_equals ha hb plain hd he order
    cases o <;> refine .inr ⟨_, _, _, ?_, finds_of_answers (forth .lt), equal,
      finds_of_answers (back .lt), finds_of_answers (forth .le), finds_of_answers (back .gt),
      finds_of_answers (back .ge)⟩ <;> rfl

/-- A program that makes `[True]`, `[1, 2]` and `[2]`. -/
def rows : Program :=
  (start [] false).run [.list [.bool true], .list [.int 0 1, .int 0 2], .list [.int 0 2]]

theorem values_rows : rows.values = [.list ⟨2⟩, .list ⟨1⟩, .list ⟨0⟩] := rfl

theorem reachable_rows : rows.Reachable := (Reachable.start [] false).run (by decide)

theorem holds_row (i : Fin 3) : rows.Holds (.list ⟨i⟩) := by
  refine .value (values_rows ▸ ?_)
  match i with
  | 0 => simp
  | 1 => simp
  | 2 => simp

theorem plain_row (i : Fin 3) : rows.heap.Plain (.list ⟨i⟩) := by
  refine .list ?_
  match i with
  | 0 => exact List.forall_mem_singleton.2 .bool
  | 1 => exact List.forall_mem_cons.2 ⟨.int, List.forall_mem_singleton.2 .int⟩
  | 2 => exact List.forall_mem_singleton.2 .int

/-- `[True] < [2]` since `[1, 2]` is between the two, and `[True] > 1` is refused. -/
theorem comparisons_lawful_of_rows :
    rows.Finds (compare .lt (.list ⟨0⟩) (.list ⟨2⟩)) true ∧
      rows.Refuses (compare .gt (.list ⟨0⟩) (.int 0 1)) := by
  obtain ⟨laws, transitive⟩ := reachable_rows.comparisons_lawful
  refine ⟨?_, ?_⟩
  · exact transitive _ _ _ (holds_row 0) (holds_row 1) (holds_row 2) (plain_row 0) (plain_row 1)
      (plain_row 2) rfl rfl
  · rcases laws (.int 0 1) (.list ⟨0⟩) (.shared rfl) (holds_row 0) .int (plain_row 0) with
      ⟨-, -, refused, -⟩ | ⟨_, _, _, -, found, -⟩
    · exact refused
    · cases found

end Program

end ObjectModel
