import ObjectModel.Proofs.Program.Basic
import ObjectModel.Proofs.World.Exhaustion

/-!
# Exhaustion is final

Once a step of an iterator has yielded nothing, no later step yields anything,
whatever the program does in between to the iterator, to the iterators that it
reads and to the containers that those walk. Only files are left out.

Main statement: `Reachable.exhaustion_final`.
-/

namespace ObjectModel

open ObjectModel.Action World

namespace Program

variable {p q : Program} {w : World}

/-- Operations on held values lead from one program to the other. -/
inductive Leads (p : Program) : Program → Prop
  | refl : Leads p p
  | perform {q : Program} (o : Operation) : Leads p q → (∀ v ∈ o.operands, q.Holds v) →
    Leads p (q.perform o)

theorem Modeled.leads (modeled : Modeled w p) (h : p.Leads q) : ∃ w', w ≤ w' ∧ Modeled w' q := by
  induction h with
  | refl => exact ⟨w, le_refl w, modeled⟩
  | perform o _ held ih =>
    obtain ⟨w', le, modeled'⟩ := ih
    obtain ⟨w'', le', modeled''⟩ := modeled'.perform fun v hv => modeled'.has (held v hv)
    exact ⟨w'', le_trans le le', modeled''⟩

theorem Modeled.mark (modeled : Modeled w p) : Modeled (w.mark p.heap) p :=
  ⟨modeled.models.mark, modeled.values⟩

/-- Once a step has yielded nothing, every later step yields nothing and changes
nothing. -/
theorem Reachable.exhaustion_final (reachable : p.Reachable) {it : Value} (held : p.Holds it)
    (plain : ∀ mode f, ¬ p.heap.Steps it (.file mode f))
    {s : Session} (ended : (next it).runOn p.session = (.ok none, s))
    (leads : (p.perform (.next it)).Leads q) :
    (next it).runOn q.session = (.ok none, q.session) := by
  obtain ⟨w, modeled⟩ := reachable.modeled
  have has : w.Has it := modeled.has held
  -- The step leaves the iterator spent,
  obtain ⟨w₁, le₁, modeled₁⟩ := modeled.mark.perform (o := .next it)
    (List.forall_mem_singleton.2 has)
  have spent : (p.perform (.next it)).heap.Spent (p.heap.cursors.size + 1) it := by
    rw [perform_next ended]
    exact spent_of_advance modeled.models has plain ended
  -- and spent it stays.
  obtain ⟨w₂, le₂, modeled₂⟩ := modeled₁.mark.leads leads
  have has₁ : w₁.Has it := World.Has.mono (w := w.mark p.heap) has le₁
  have spent₂ := spent_later modeled₁.models le₂ modeled₂.models has₁ spent
  have size₁ := size_le_of_mark modeled.models le₁ modeled₁.models
  have size₂ := size_le_of_mark modeled₁.models le₂ modeled₂.models
  rw [next, runOn_bind_of_ok (runOn_heap _)]
  exact spent₂.advance (Nat.succ_le_succ (size₁.trans size₂))

/-- A program that walks `[1]` to its end, counting the items. -/
def counted : Program :=
  (((start [] false).perform (.list [.int 0 1])).perform (.iter (.list ⟨0⟩))).perform
    (.callBuiltin "enumerate" ⟨[.cursor .list ⟨0⟩], ∅⟩) |>.perform (.next (.cursor .enumerate ⟨1⟩))

theorem reachable_counted : counted.Reachable := by
  have last {p : Program} {v : Value} (hv : v ∈ p.values) : ∀ u ∈ [v], p.Holds u :=
    List.forall_mem_singleton.2 (.value hv)
  refine .perform _ (.perform _ (.perform _ (.perform _ (.start [] false) ?_) ?_) ?_) ?_
  · exact List.forall_mem_singleton.2 (.shared rfl)
  · exact last (List.mem_singleton_self _)
  · exact last (List.mem_cons_self ..)
  · exact last (List.mem_cons_self ..)

theorem steps_counted {v : Value} (h : counted.heap.Steps (.cursor .enumerate ⟨1⟩) v) :
    v = .cursor .enumerate ⟨1⟩ ∨ v = .cursor .list ⟨0⟩ := by
  have outer : counted.heap.cursor ⟨1⟩ = .enumerate (.cursor .list ⟨0⟩) (some 1) := rfl
  have inner : counted.heap.cursor ⟨0⟩ = .list ⟨0⟩ 1 false := rfl
  induction h with
  | self => exact .inl rfl
  | zip _ hc _ ih =>
    rcases ih with ih | ih <;> cases ih
    · cases outer.symm.trans hc
    · cases inner.symm.trans hc
  | enumerate _ hc ih =>
    rcases ih with ih | ih <;> cases ih
    · cases outer.symm.trans hc
      exact .inr rfl
    · cases inner.symm.trans hc

/-- Appending to the list does not bring the count back. -/
theorem exhaustion_final_of_append :
    ∃ q : Program, (counted.perform (.next (.cursor .enumerate ⟨1⟩))).Leads q ∧
      q.heap.list ⟨0⟩ = [.int 0 1, .none] ∧
      (next (.cursor .enumerate ⟨1⟩)).runOn q.session = (.ok none, q.session) := by
  have values : counted.values = [.tuple 1 [.int 0 0, .int 0 1], .cursor .enumerate ⟨1⟩,
    .cursor .list ⟨0⟩, .list ⟨0⟩] := rfl
  have kept : (counted.perform (.next (.cursor .enumerate ⟨1⟩))).values = counted.values := rfl
  have leads : (counted.perform (.next (.cursor .enumerate ⟨1⟩))).Leads _ :=
    .perform (.callMethod (.list ⟨0⟩) "append".toList ⟨[.none], ∅⟩) .refl
      (List.forall_mem_cons.2 ⟨.value (by simp [kept, values]),
        List.forall_mem_singleton.2 (.shared rfl)⟩)
  refine ⟨_, leads, rfl, ?_⟩
  refine reachable_counted.exhaustion_final (.value ?_) ?_ rfl leads
  · simp [values]
  · intro mode f steps
    rcases steps_counted steps with h | h <;> cases h

end Program

end ObjectModel
