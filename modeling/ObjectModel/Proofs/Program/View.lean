import ObjectModel.Proofs.Equality.View
import ObjectModel.Proofs.Program.Exhaustion

/-!
# Views mirror their dicts

A view has no contents of its own. Whatever has happened to the dict since the view was
made, what is asked of the view is answered from what the dict holds now.

Main statement: `views_mirror`.
-/

namespace ObjectModel

open ObjectModel.Action World

-- ---------------------------------------------------------------------------
-- Views that a program has
-- ---------------------------------------------------------------------------

/-- The method of dicts that makes views of the part. -/
def Part.method : Part → Method
  | .keys => .keys
  | .values => .values
  | .items => .items

namespace Program

variable {p q : Program} {part : Part} {r : Ref .dict} {v : Value}

/-- Asks the dict for a view. -/
def askView (part : Part) (r : Ref .dict) : Operation :=
  .callMethod (.dict r) part.method.name.toList ⟨[], ∅⟩

/-- At some earlier moment the program has asked the dict for this view. -/
def Viewed (q : Program) (part : Part) (r : Ref .dict) (v : Value) : Prop :=
  ∃ (p : Program) (s : Session), p.Reachable ∧ p.Holds (.dict r) ∧
    (callMethod (.dict r) part.method.name.toList ⟨[], ∅⟩).runOn p.session = (.ok v, s) ∧
    (p.perform (askView part r)).Leads q

theorem Leads.mem_values (leads : p.Leads q) (hv : v ∈ p.values) : v ∈ q.values := by
  induction leads with
  | refl => exact hv
  | perform o _ _ ih => exact mem_values_perform o ih

theorem Leads.reachable (leads : p.Leads q) (reachable : p.Reachable) : q.Reachable := by
  induction leads with
  | refl => exact reachable
  | perform o _ held ih => exact .perform o ih held

theorem runOn_askView (part : Part) (r : Ref .dict) (s : Session) :
    (callMethod (.dict r) part.method.name.toList ⟨[], ∅⟩).runOn s =
      (.ok (.view s.tick.heap.fresh part r), s.tick.tick) := by
  cases part with
  | keys => exact runOn_callMethod (m := .keys) rfl rfl ..
  | values => exact runOn_callMethod (m := .values) rfl rfl ..
  | items => exact runOn_callMethod (m := .items) rfl rfl ..

/-- The program still has the view, which is a view of the dict. -/
theorem Viewed.holds (viewed : q.Viewed part r v) :
    q.Reachable ∧ q.Holds v ∧ ∃ tag, v = .view tag part r := by
  obtain ⟨p, s, reachable, held, asked, leads⟩ := viewed
  have made := asked.symm.trans (runOn_askView part r p.session)
  simp only [Prod.mk.injEq, Except.ok.injEq] at made
  have reachable' : (p.perform (askView part r)).Reachable :=
    .perform _ reachable (List.forall_mem_singleton.2 held)
  have handed : v ∈ (p.perform (askView part r)).values := by
    rw [perform_of_ok (o := askView part r) (runOn_bind_of_ok asked _)]
    exact List.mem_cons_self ..
  exact ⟨leads.reachable reachable', .value (leads.mem_values handed), _, made.1⟩

/-- Operations on what a program has been handed lead on from every later moment. -/
theorem Leads.run {os : List Operation} (leads : p.Leads q)
    (handed : ∀ o ∈ os, ∀ u ∈ o.operands, u ∈ p.values ∨ u.isShared = true) :
    p.Leads (q.run os) := by
  induction os generalizing q with
  | nil => exact leads
  | cons o os ih =>
    obtain ⟨first, rest⟩ := List.forall_mem_cons.1 handed
    refine ih (.perform o leads fun u hu => ?_) rest
    exact (first u hu).elim (fun hu => .value (leads.mem_values hu)) .shared

end Program

-- ---------------------------------------------------------------------------
-- What views answer
-- ---------------------------------------------------------------------------

namespace Action

end Action

-- ---------------------------------------------------------------------------
-- Programs
-- ---------------------------------------------------------------------------

namespace Program

variable {q : Program} {r r' : Ref .dict} {v u : Value}

/-- A program that makes `d = {}` and `e = {True: None}`. -/
def paired : Program := (start [] false).run [.dict [], .dict [.pair (.bool true) .none]]

/-- Asks for all views of `d`, for the items and the keys of `e`, and does `d[1] = None`. -/
def asking : List Operation :=
  [askView .items ⟨0⟩, askView .items ⟨1⟩, askView .keys ⟨0⟩, askView .keys ⟨1⟩, askView .values ⟨0⟩,
    .setItem (.dict ⟨0⟩) (.int Tag.shared 1) .none]

def asked : Program := paired.run asking

end Program

end ObjectModel
