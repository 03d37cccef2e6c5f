import ObjectModel.Proofs.Spelling.Total

/-!
# Where a spelling is cut short

`Heap.Spells` says how a value is spelled inside the containers that are being
spelled: one of them that is met again is cut short by its placeholder, and else
a value shows its items, each spelled inside it.

Main statements: `Heap.Spells.unique`, and `spells_textAt`: so values are spelled
when every container is cut short but for tuples of one item.
-/

namespace ObjectModel

open Spelling

namespace Heap

variable (h : Heap)

/-- The values that a value shows. -/
def shownItems : Value → List Value
  | .tuple _ items => items
  | .slice _ start stop step => [start, stop, step]
  | .error _ _ args => args
  | .list r => h.list r
  | .dict r | .view _ .items r => (h.dict r).entries.flatMap fun e => [e.1.value, e.2]
  | .set r => (h.set r).keys.map (·.value)
  | .view _ .keys r => (h.dict r).keys.map (·.value)
  | .view _ .values r => (h.dict r).values
  | _ => []

/-- What a value shows, given the texts of the values that it shows. -/
def shown (f : Value → List Char) : Value → List Char
  | .tuple _ [item] => ['('] ++ f item ++ [',', ')']
  | .tuple _ items => enclose ['('] (items.map f) [')']
  | .slice _ start stop step => enclose "slice(".toList ([start, stop, step].map f) [')']
  | .error _ e args => enclose (e.name.toList ++ ['(']) (args.map f) [')']
  | .set r => if (h.set r).isEmpty then "set()".toList else h.contentText f (.set r)
  | v => h.contentText f v

variable {h} in
theorem shown_congr {v : Value} {f g : Value → List Char} (same : ∀ u ∈ h.shownItems v, f u = g u) :
    h.shown f v = h.shown g v := by
  have items {xs : List Value} (hx : ∀ u ∈ xs, f u = g u) : xs.map f = xs.map g :=
    List.map_congr_left hx
  have entries {r : Ref .dict}
      (he : ∀ u ∈ (h.dict r).entries.flatMap fun e => [e.1.value, e.2], f u = g u)
      {e : Key × Value} (mem : e ∈ (h.dict r).entries) :
      f e.1.value = g e.1.value ∧ f e.2 = g e.2 :=
    ⟨he _ (List.mem_flatMap.2 ⟨e, mem, by simp⟩), he _ (List.mem_flatMap.2 ⟨e, mem, by simp⟩)⟩
  cases v with
  | tuple tag xs =>
    match xs with
    | [] => rfl
    | [x] => rw [shown, shown, same x (List.mem_singleton_self x)]
    | x :: y :: zs => exact congrArg (enclose _ · _) (items same)
  | slice | error => exact congrArg (enclose _ · _) (items same)
  | list r => exact congrArg (enclose _ · _) (items same)
  | dict r =>
    refine congrArg (enclose _ · _) (List.map_congr_left fun e mem => ?_)
    rw [(entries same mem).1, (entries same mem).2]
  | set r =>
    have content : h.contentText f (.set r) = h.contentText g (.set r) :=
      congrArg (enclose _ · _) (items same)
    rw [shown, shown, content]
  | view tag part r =>
    cases part with
    | keys | values => exact congrArg (enclose _ · _) (items same)
    | items =>
      refine congrArg (enclose _ · _) (List.map_congr_left fun e mem => ?_)
      rw [(entries same mem).1, (entries same mem).2]
  | _ => rfl

/-- So a value is spelled inside the containers of a path, the innermost first,
when those of a kind are cut short inside themselves. -/
inductive Spells (h : Heap) (cut : Value → Bool) : List Value → Value → List Char → Prop
  /-- a container that is being spelled -/
  | met {path : List Value} {v u : Value} : cut v = true → u ∈ path → v.is u = true →
      Spells h cut path v v.placeholder
  /-- a container that is not being spelled yet -/
  | opened {path : List Value} {v : Value} {text : Value → List Char} : cut v = true →
      (∀ u ∈ path, v.is u = false) →
      (∀ u ∈ h.shownItems v, Spells h cut (v :: path) u (text u)) →
      Spells h cut path v (h.shown text v)
  /-- what is never cut short -/
  | plain {path : List Value} {v : Value} {text : Value → List Char} : cut v = false →
      (∀ u ∈ h.shownItems v, Spells h cut path u (text u)) →
      Spells h cut path v (h.shown text v)

variable {h} in
/-- A value has one spelling at most. -/
theorem Spells.unique {cut : Value → Bool} {path : List Value} {v : Value} {s t : List Char}
    (hs : h.Spells cut path v s) (ht : h.Spells cut path v t) : s = t := by
  induction hs generalizing t with
  | met hc mem same =>
    cases ht with
    | met => rfl
    | opened _ new _ => exact absurd same (by simp [new _ mem])
    | plain hc' _ => exact absurd hc (by simp [hc'])
  | opened hc new _ ih =>
    cases ht with
    | met _ mem same => exact absurd same (by simp [new _ mem])
    | opened _ _ items => exact shown_congr fun u hu => ih u hu (items u hu)
    | plain hc' _ => exact absurd hc (by simp [hc'])
  | plain hc _ ih =>
    cases ht with
    | met hc' _ _ | opened hc' _ _ => exact absurd hc' (by simp [hc])
    | plain _ items => exact shown_congr fun u hu => ih u hu (items u hu)

/-- A container that shows items. -/
def isNesting (v : Value) : Bool := h.isGuarded v || v.kind == .tuple

/-- The containers that are cut short inside themselves: those that show items,
without the tuples of one item. -/
def isCut : Value → Bool
  | .tuple _ items => items.length != 1
  | v => h.isGuarded v

variable {h}

theorem isContainer_of_isCut {v : Value} (cut : h.isCut v = true) :
    v.identity.isContainer = true := by
  cases v with
  | tuple tag items => exact Value.isContainer_tuple tag items
  | list | dict | set | view => rfl
  | _ => cases cut

variable {k : Nat} {opened : Opened} {v : Value}

theorem textAt_of_met (cut : h.isCut v = true)
    (met : opened.contains v.identity.code = true) :
    h.textAt (k + 1) opened v = v.placeholder := by
  cases v with
  | tuple tag items =>
    rw [h.textAt_tuple (by simpa [isCut] using cut)]
    exact if_pos met
  | _ =>
    refine (h.textAt_guarded ?_).trans (if_pos met)
    exact cut

theorem textAt_of_new (cut : h.isCut v = true)
    (new : opened.contains v.identity.code = false) :
    ∃ m, k ≤ m ∧ h.textAt (k + 1) opened v =
      h.shown (h.textAt m (opened.insert v.identity.code)) v := by
  have closed : ¬ opened.contains v.identity.code = true := by simp [new]
  have guarded (hg : h.isGuarded v = true) : h.textAt (k + 1) opened v =
      h.contentText (h.textAt k (opened.insert v.identity.code)) v :=
    (h.textAt_guarded hg).trans (if_neg closed)
  cases v with
  | tuple tag items =>
    have several : items.length ≠ 1 := by simpa [isCut] using cut
    refine ⟨k + 1, Nat.le_succ k, (h.textAt_tuple several).trans ((if_neg closed).trans ?_)⟩
    rw [shown]
    rintro item rfl
    exact several rfl
  | set r =>
    have some : ¬ (h.set r).isEmpty = true := by simpa [isCut, isGuarded] using cut
    exact ⟨k, Nat.le_refl k, (guarded cut).trans (if_neg some).symm⟩
  | list r | dict r | view tag part r => exact ⟨k, Nat.le_refl k, guarded cut⟩
  | _ => cases cut

theorem textAt_of_plain (plain : h.isCut v = false) :
    h.textAt (k + 1) opened v = h.shown (h.textAt (k + 1) opened) v := by
  cases v with
  | tuple tag items =>
    have one : items.length = 1 := by simpa [isCut] using plain
    obtain ⟨item, rfl⟩ := List.length_eq_one_iff.1 one
    exact h.textAt_tuple_one tag item
  | slice tag start stop step => exact h.textAt_slice tag start stop step
  | error tag e args => exact h.textAt_error tag e args
  | set r =>
    have none : (h.set r).isEmpty = true := by simpa [isCut, isGuarded] using plain
    exact (h.textAt_emptySet none).trans (if_pos none).symm
  | list | dict | view => cases plain
  | _ => exact h.textAt_leaf rfl rfl (by rintro ⟨⟩)

theorem mem_parts_of_plain (plain : h.isCut v = false) {u : Value} (hu : u ∈ h.shownItems v) :
    u ∈ v.parts := by
  cases v with
  | set r =>
    have none : (h.set r).slots = #[] := by simpa [isCut, isGuarded, Keyed.isEmpty] using plain
    simp [shownItems, Keyed.keys, Keyed.entries, none] at hu
  | list | dict | view => cases plain
  | tuple | slice | error => exact hu
  | _ => cases hu

end Heap

-- ---------------------------------------------------------------------------
-- Spelling in a world
-- ---------------------------------------------------------------------------

section

variable {w : World} {h : Heap} {opened : Opened} {path : List Value} {v : Value}

/-- Just the containers of the path are being spelled. -/
def World.Inside (w : World) (opened : Opened) (path : List Value) : Prop :=
  ∀ {v : Value}, w.Has v → v.identity.isContainer = true →
    (opened.contains v.identity.code = true ↔ ∃ u ∈ path, v.is u = true)

theorem World.Inside.nil (w : World) : w.Inside ∅ [] := fun _ _ => by simp

theorem World.Inside.push (inside : w.Inside opened path)
    (container : v.identity.isContainer = true) :
    w.Inside (opened.insert v.identity.code) (v :: path) := by
  intro u hu hc
  have same : v.identity.code = u.identity.code ↔ u.is v = true := by
    rw [Value.is_iff]
    exact ⟨fun code => (Identity.code_inj container hc code).symm, fun id => id ▸ rfl⟩
  rw [Std.TreeSet.contains_insert, Bool.or_eq_true, beq_iff_eq, Std.LawfulEqCmp.compare_eq_iff_eq,
    inside hu hc, same, List.exists_mem_cons_iff]

namespace World.Models

theorem has_shownItems (models : w.Models h) (has : w.Has v) : w.Has (h.shownItems v) := by
  have entries (r : Ref .dict) : w.Has ((h.dict r).entries.flatMap fun e => [e.1.value, e.2]) := by
    intro u hu
    obtain ⟨e, mem, hu⟩ := List.mem_flatMap.1 hu
    obtain ⟨hk, hv⟩ := models.dict r e mem
    have both : w.Has [e.1.value, e.2] := World.has_cons hk (World.has_cons hv World.has_nil)
    exact both u hu
  have keys {β : Type} [Carries β] {t : Keyed β} (ht : w.Has t) : w.Has (t.keys.map (·.value)) := by
    intro u hu
    obtain ⟨key, mem, rfl⟩ := List.mem_map.1 hu
    exact Keyed.has_keys ht key mem
  cases v with
  | tuple | slice | error => exact fun u hu => w.parts has hu
  | list r => exact models.list r
  | dict r => exact entries r
  | set r => exact keys (models.set r)
  | view tag part r =>
    cases part with
    | keys => exact keys (models.dict r)
    | values => exact Keyed.has_values (models.dict r)
    | items => exact entries r
  | _ => exact World.has_nil

/-- A container that shows something is one of those that may lead back to
themselves. -/
theorem code_mem_of_isCut (models : w.Models h) (has : w.Has v) (cut : h.isCut v = true)
    {u : Value} (hu : u ∈ h.shownItems v) : v.identity.code ∈ h.guardable := by
  refine models.code_mem has ?_
  cases v with
  | tuple tag items =>
    rw [(w.interned has).identity_of_mem hu]
    rfl
  | list | dict | set | view => rfl
  | _ => cases cut

end World.Models

/-- The text of a value is its spelling when all containers are cut short but for
tuples of one item. -/
theorem spells_textAt (models : w.Models h) {k : Nat} (has : w.Has v)
    (room : (h.unopened opened).card < k) (inside : w.Inside opened path) :
    h.Spells h.isCut path v (h.textAt k opened v) := by
  induction size : (h.unopened opened).card using Nat.strong_induction_on
    generalizing k opened path v with
  | _ m ih =>
  induction v using Value.inductParts with
  | step v ihParts =>
  obtain ⟨k, rfl⟩ := Nat.exists_eq_add_of_lt room
  cases cut : h.isCut v with
  | false =>
    rw [Heap.textAt_of_plain cut]
    refine .plain cut fun u hu => ?_
    have part := Heap.mem_parts_of_plain cut hu
    exact ihParts u part (w.parts has part)
  | true =>
    have container := Heap.isContainer_of_isCut cut
    cases met : opened.contains v.identity.code with
    | true =>
      obtain ⟨u, mem, same⟩ := (inside has container).1 met
      rw [Heap.textAt_of_met cut met]
      exact .met cut mem same
    | false =>
      obtain ⟨n, le, shows⟩ := Heap.textAt_of_new (k := (h.unopened opened).card + k) cut met
      have new : ∀ u ∈ path, v.is u = false := fun u mem => by
        refine Bool.eq_false_iff.2 fun same => ?_
        have := (inside has container).2 ⟨u, mem, same⟩
        simp [met] at this
      rw [shows]
      refine .opened cut new fun u hu => ?_
      -- Inside a container that is new there is one container less to meet.
      have less := h.card_unopened_insert (models.code_mem_of_isCut has cut hu) met
      exact ih _ (size ▸ less) (models.has_shownItems has u hu) (by omega)
        (inside.push container) rfl

end

end ObjectModel
