import ObjectModel.Proofs.Program.Spelling
import ObjectModel.Proofs.Spelling.Cuts

/-!
# Cycles in programs

Whatever cycles a program has built, a container is spelled inside itself by its
placeholder. A tuple of one item is not: it is spelled again until another
container is met again.

Main statement: `Reachable.spelling_cuts`.
-/

namespace ObjectModel.Program

variable {p : Program}

/-- The literal of a value is its spelling in which every list, dict, set, view and
tuple is cut short when it is met inside itself, but for tuples of one item. -/
theorem Reachable.spelling_cuts (reachable : p.Reachable) {v : Value} (held : p.Holds v)
    (text : List Char) :
    (Action.repr v).runOn p.session = (.ok text, p.session) ↔
      p.heap.Spells p.heap.isCut [] v text := by
  obtain ⟨w, modeled⟩ := reachable.modeled
  have spells : p.heap.Spells p.heap.isCut [] v (p.heap.repr v) :=
    spells_textAt modeled.models (modeled.has held) (p.heap.card_unopened_lt ∅) (World.Inside.nil w)
  constructor
  · intro run
    cases run
    exact spells
  · intro other
    rw [other.unique spells]
    rfl

/-- In `[([...], dict_items([(None, [...])]))]` the list is cut short twice. -/
theorem spelling_cuts_of_looped : looped.heap.Spells looped.heap.isCut [] (.list ⟨0⟩)
    "[([...], dict_items([(None, [...])]))]".toList :=
  (reachable_looped.spelling_cuts (.value (values_looped ▸ by simp)) _).1 rfl

/-- The tuple `(l,)` of a list. -/
def knot : Value := .tuple 1 [.list ⟨0⟩]

/-- A program that has made `l = []`, `t = (l,)` and `l.append(t)`. -/
def knotted : Program :=
  (((start [] false).perform (.list [])).perform (.tuple [.list ⟨0⟩])).perform
    (.callMethod (.list ⟨0⟩) "append".toList (.single knot))

theorem values_knotted : knotted.values = [.none, knot, .list ⟨0⟩] := rfl

theorem reachable_knotted : knotted.Reachable := by
  refine .perform_handed (.perform_handed (.perform_handed (.start [] false) [] ?_ rfl)
    [.list ⟨0⟩] ?_ rfl) [knot, .list ⟨0⟩] ?_ rfl
  all_goals simp [Operation.operands, Arguments.values, Arguments.single]

/-- The tuple is written again inside itself: `([([...],)],)` instead of
`([(...)],)`, as it is if all containers are cut short inside themselves. -/
theorem not_cut_of_knotted :
    let h := knotted.heap
    knotted.Reachable ∧ knotted.Holds knot ∧
    h.Spells h.isNesting [] knot "([(...)],)".toList ∧
    (Action.repr knot).runOn knotted.session = (.ok "([([...],)],)".toList, knotted.session) ∧
    ¬ h.Spells h.isNesting [] knot "([([...],)],)".toList := by
  intro h
  have tuple {u : Value} (hu : u ∈ h.shownItems (.list ⟨0⟩)) : u = knot := List.mem_singleton.1 hu
  have list {u : Value} (hu : u ∈ h.shownItems knot) : u = .list ⟨0⟩ := List.mem_singleton.1 hu
  have cut : h.Spells h.isNesting [] knot "([(...)],)".toList := by
    show h.Spells _ _ _ (h.shown (fun _ => "[(...)]".toList) knot)
    refine .opened rfl (fun u hu => nomatch hu) fun u hu => ?_
    cases list hu
    show h.Spells _ _ _ (h.shown (fun _ => "(...)".toList) (.list ⟨0⟩))
    refine .opened rfl (by decide) fun u hu => ?_
    cases tuple hu
    exact .met rfl (List.mem_cons_of_mem _ (List.mem_singleton_self _)) rfl
  refine ⟨reachable_knotted, .value (values_knotted ▸ by simp), cut, rfl, fun other => ?_⟩
  exact absurd (cut.unique other) (by decide)

end ObjectModel.Program
