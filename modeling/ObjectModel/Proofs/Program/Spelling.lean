import ObjectModel.Proofs.Program.Basic
import ObjectModel.Proofs.Spelling.Total

/-!
# Spelling in programs

Whatever a program has built, cycles included, writing one of its values ends
with a text. What was written before makes no difference, for the stack of the
containers that are being written is afterwards what it was.

Main statement: `Reachable.spelling_total`.
-/

namespace ObjectModel

open Writing

/-- A value that is to be spelled as a literal, or as a text. -/
inductive Request where
  | repr (v : Value)
  | str (v : Value)

namespace Request

def value : Request → Value
  | .repr v | .str v => v

def action : Request → Action (List Char)
  | .repr v => Action.repr v
  | .str v => Action.str v

/-- The text that is asked for. -/
def text (h : Heap) : Request → List Char
  | .repr v => h.repr v
  | .str v => h.str v

def writeAt (h : Heap) (n : Nat) : Request → Writing (List Char)
  | .repr v => h.writeAt n v
  | .str v => h.writeTextAt n v

end Request

/-- Nothing that is made from now on is being written. -/
structure Guards.Fits (g : Guards) (h : Heap) : Prop where
  fresh_le : h.fresh ≤ g.fresh
  unused : ∀ tag, g.fresh ≤ tag → (Identity.tagged tag).code ∉ g.stack

/-- The stack of a program that is not writing. -/
theorem Guards.fits_nil (h : Heap) : Guards.Fits ⟨[], h.fresh⟩ h :=
  ⟨Nat.le_refl _, fun _ _ => List.not_mem_nil⟩

theorem Guards.Fits.guarded {g : Guards} {h : Heap} (fits : g.Fits h) {w : World}
    (models : w.Models h) : w.Guarded (.ofList g.stack) g.stack g.fresh where
  mem_iff _ _ := by rw [Std.TreeSet.contains_ofList, List.contains_iff_mem]
  fresh_le := models.fresh ▸ fits.fresh_le
  unused := fits.unused

namespace Program

variable {p : Program}

/-- Every request for a value of the world is met. -/
theorem Modeled.settles {w : World} (modeled : Modeled w p) (opened : Opened) {q : Request}
    (has : w.Has q.value) :
    ∃ text, w.Settles opened (fun n => q.writeAt p.heap n) text ∧
      (opened = ∅ → text = q.text p.heap) := by
  cases q with
  | repr v =>
    exact ⟨_, settles_writeAt modeled.models has (p.heap.card_unopened_lt opened), fun e => e ▸ rfl⟩
  | str v => exact settles_writeTextAt modeled.models has

/-- Whichever containers are being written, with levels enough writing a value as a
literal or as a text ends with a text, and the stack is then what it was. If
nothing was being written it is the text of the value, whatever has been written
before, and that is what the operation of the program yields. -/
theorem Reachable.spelling_total (reachable : p.Reachable) :
    (∀ q : Request, p.Holds q.value → ∀ stack, ∃ text levels,
      (stack = [] → text = q.text p.heap) ∧
      ∀ n fresh, levels ≤ n → (Guards.mk stack fresh).Fits p.heap →
        ∃ next, fresh ≤ next ∧
          (q.writeAt p.heap n).runOn ⟨stack, fresh⟩ = (.ok text, ⟨stack, next⟩)) ∧
    (∀ qs : List Request, (∀ q ∈ qs, p.Holds q.value) → ∃ levels, ∀ n, levels ≤ n →
      ∃ next, (qs.mapM (Request.writeAt p.heap n)).runOn ⟨[], p.heap.fresh⟩ =
        (.ok (qs.map (Request.text p.heap)), ⟨[], next⟩)) ∧
    ∀ q : Request, q.action.runOn p.session = (.ok (q.text p.heap), p.session) := by
  obtain ⟨w, modeled⟩ := reachable.modeled
  refine ⟨fun q held stack => ?_, fun qs held => ?_, fun q => by cases q <;> rfl⟩
  · obtain ⟨text, ⟨levels, settles⟩, same⟩ := modeled.settles (.ofList stack) (modeled.has held)
    refine ⟨text, levels, fun none => same (none ▸ rfl), fun n fresh hn fits => ?_⟩
    exact settles n hn stack fresh (fits.guarded modeled.models) fresh (Nat.le_refl _)
  · have each (q : Request) (hq : q ∈ qs) :
        w.Settles ∅ (fun n => q.writeAt p.heap n) (q.text p.heap) := by
      obtain ⟨text, settles, same⟩ := modeled.settles ∅ (modeled.has (held q hq))
      exact same rfl ▸ settles
    obtain ⟨levels, settles⟩ := World.Settles.mapM each
    refine ⟨levels, fun n hn => ?_⟩
    have guarded := (Guards.fits_nil p.heap).guarded modeled.models
    obtain ⟨next, -, run⟩ := settles n hn [] p.heap.fresh guarded _ (Nat.le_refl _)
    exact ⟨next, run⟩

/-- A program that has made `l = []`, `d = {None: l}` and `d.items()`. -/
def viewing : Program :=
  (((start [] false).perform (.list [])).perform (.dict [.pair .none (.list ⟨0⟩)])).perform
    (.callMethod (.dict ⟨0⟩) "items".toList ⟨[], ∅⟩)

theorem values_viewing : viewing.values = [.view 2 .items ⟨0⟩, .dict ⟨0⟩, .list ⟨0⟩] := rfl

theorem reachable_viewing : viewing.Reachable := by
  refine .perform_handed (.perform_handed (.perform_handed (.start [] false) [] ?_ rfl)
    [.list ⟨0⟩] ?_ rfl) [.dict ⟨0⟩, .list ⟨0⟩] ?_ rfl
  all_goals simp [Operation.operands, DictMethod.DisplayItem.parts, Arguments.values,
    Value.isShared]

/-- The tuple `(l, d.items())`. -/
def pair : Value := .tuple 3 [.list ⟨0⟩, .view 2 .items ⟨0⟩]

/-- The same after `l.append((l, d.items()))` and `ValueError(None, l)`. -/
def looped : Program :=
  ((viewing.perform (.tuple [.list ⟨0⟩, .view 2 .items ⟨0⟩])).perform
    (.callMethod (.list ⟨0⟩) "append".toList (.single pair))).perform
    (.call (.type (.error .value)) ⟨[.none, .list ⟨0⟩], ∅⟩)

/-- The error made last. -/
def lastError : Value := .error 5 .value [.none, .list ⟨0⟩]

theorem values_looped :
    looped.values = [lastError, .none, pair, .view 2 .items ⟨0⟩, .dict ⟨0⟩, .list ⟨0⟩] := rfl

theorem reachable_looped : looped.Reachable := by
  refine .perform_handed (.perform_handed (.perform_handed reachable_viewing _ ?_ values_viewing)
    (pair :: viewing.values) ?_ rfl) (.none :: pair :: viewing.values) ?_ rfl
  all_goals simp [Operation.operands, Arguments.values, Arguments.single, values_viewing,
    Value.isShared]

/-- The list comes out as before when the error has been written in between, and
inside itself it is cut short. -/
theorem spelling_total_of_looped :
    (∃ levels next, ([.repr (.list ⟨0⟩), .str lastError, .repr (.list ⟨0⟩)].mapM
        (Request.writeAt looped.heap levels)).runOn ⟨[], looped.heap.fresh⟩ =
      (.ok ["[([...], dict_items([(None, [...])]))]".toList,
        "(None, [([...], dict_items([(None, [...])]))])".toList,
        "[([...], dict_items([(None, [...])]))]".toList], ⟨[], next⟩)) ∧
    (∃ text levels next, (looped.heap.writeAt levels (.list ⟨0⟩)).runOn
        ⟨[(Identity.stored .list 0).code], looped.heap.fresh⟩ =
      (.ok text, ⟨[(Identity.stored .list 0).code], next⟩)) ∧
    (Action.repr (.list ⟨0⟩)).runOn looped.session =
      (.ok "[([...], dict_items([(None, [...])]))]".toList, looped.session) := by
  have total := reachable_looped.spelling_total
  have list : looped.heap.repr (.list ⟨0⟩) = "[([...], dict_items([(None, [...])]))]".toList := rfl
  have error : looped.heap.str lastError =
    "(None, [([...], dict_items([(None, [...])]))])".toList := rfl
  have held {q : Request} (hq : q ∈ [.repr (.list ⟨0⟩), .str lastError, .repr (.list ⟨0⟩)]) :
      looped.Holds q.value := by
    simp only [List.mem_cons, List.not_mem_nil, or_false] at hq
    rcases hq with rfl | rfl | rfl <;> exact .value (values_looped ▸ by simp [Request.value])
  refine ⟨?_, ?_, list ▸ total.2.2 (.repr (.list ⟨0⟩))⟩
  · obtain ⟨levels, written⟩ := total.2.1 _ fun _ => held
    obtain ⟨next, run⟩ := written levels (Nat.le_refl _)
    refine ⟨levels, next, run.trans ?_⟩
    simp only [List.map_cons, List.map_nil, Request.text, list, error]
  · obtain ⟨text, levels, -, written⟩ := total.1 (.repr (.list ⟨0⟩)) (held (List.mem_cons_self ..))
      [(Identity.stored .list 0).code]
    have unused (tag : Tag) :
        (Identity.tagged tag).code ∉ [(Identity.stored .list 0).code] := by
      simp only [Identity.code, Shelf.lane, List.mem_singleton]
      omega
    obtain ⟨next, -, run⟩ := written levels looped.heap.fresh (Nat.le_refl _)
      ⟨Nat.le_refl _, fun tag _ => unused tag⟩
    exact ⟨text, levels, next, run⟩

end Program

end ObjectModel
