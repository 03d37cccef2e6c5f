import Mathlib.Data.Finset.Card
import ObjectModel.Proofs.Spelling.Guards
import ObjectModel.Proofs.World.Keyed

/-!
# Writing ends

Each way through the graph of a value that does not meet a container which is
being written meets a new one before it comes to the end of the tuples of one
item, slices and exceptions between them, and there are only so many containers.

Main statements: `settles_writeAt` and `settles_writeTextAt`. In a world that
models the heap, writing ends with a text that depends only on the heap, the
value and the containers that were being written.
-/

namespace ObjectModel

open Spelling Writing

/-- With levels enough the action ends with the result, whatever the stack is on
which just these containers are, and leaves it as it was. -/
def World.Settles {α : Type} (w : World) (opened : Opened) (action : Nat → Writing α) (x : α) :
    Prop :=
  ∃ levels, ∀ n, levels ≤ n → ∀ stack first, w.Guarded opened stack first →
    Writes stack first (action n) x

namespace World.Settles

variable {w : World} {opened : Opened} {α β : Type}

protected theorem pure (x : α) : w.Settles opened (fun _ => pure x) x :=
  ⟨0, fun _ _ _ _ _ => .pure x⟩

protected theorem bind {a : Nat → Writing α} {f : Nat → α → Writing β} {x : α} {y : β}
    (ha : w.Settles opened a x) (hf : w.Settles opened (f · x) y) :
    w.Settles opened (fun n => a n >>= f n) y := by
  obtain ⟨m, ha⟩ := ha
  obtain ⟨k, hf⟩ := hf
  refine ⟨max m k, fun n hn stack first g => ?_⟩
  exact .bind (ha n (le_of_max_le_left hn) stack first g) (hf n (le_of_max_le_right hn) stack first g)

/-- One more level does no harm. -/
theorem of_succ {a : Nat → Writing α} {x : α} (h : w.Settles opened (fun n => a (n + 1)) x) :
    w.Settles opened a x := by
  obtain ⟨m, h⟩ := h
  refine ⟨m + 1, fun n hn => ?_⟩
  obtain ⟨n, rfl⟩ := Nat.exists_eq_add_of_le' (Nat.le_of_add_left_le hn)
  exact h n (Nat.le_of_succ_le_succ hn)

/-- Finitely many actions settle together. -/
theorem together {f : Nat → α → Writing β} {y : α → β} {xs : List α}
    (h : ∀ x ∈ xs, w.Settles opened (f · x) (y x)) :
    ∃ levels, ∀ n, levels ≤ n → ∀ x ∈ xs, ∀ stack first, w.Guarded opened stack first →
      Writes stack first (f n x) (y x) := by
  induction xs with
  | nil => exact ⟨0, fun _ _ x hx => absurd hx (List.not_mem_nil)⟩
  | cons x xs ih =>
    obtain ⟨m, hx⟩ := h x (List.mem_cons_self ..)
    obtain ⟨k, hs⟩ := ih fun x hx => h x (List.mem_cons_of_mem _ hx)
    refine ⟨max m k, fun n hn u hu => ?_⟩
    rcases List.mem_cons.1 hu with rfl | hu
    · exact hx n (le_of_max_le_left hn)
    · exact hs n (le_of_max_le_right hn) u hu

protected theorem mapM {f : Nat → α → Writing β} {y : α → β} {xs : List α}
    (h : ∀ x ∈ xs, w.Settles opened (f · x) (y x)) :
    w.Settles opened (fun n => xs.mapM (f n)) (xs.map y) := by
  obtain ⟨m, h⟩ := together h
  refine ⟨m, fun n hn stack first g => .mapM ?_⟩
  rw [List.forall₂_map_right_iff, List.forall₂_same]
  exact fun x hx => h n hn x hx stack first g

protected theorem all {write : Nat → Value → Writing (List Char)} {text : Value → List Char}
    {items : List Value} (h : ∀ v ∈ items, w.Settles opened (write · v) (text v))
    (opening closing : List Char) :
    w.Settles opened (fun n => Writing.all (write n) opening items closing)
      (enclose opening (items.map text) closing) :=
  .bind (.mapM h) (.pure _)

/-- A container is cut short, or its content is written inside it. -/
protected theorem guarded {v : Value} (has : w.Has v)
    (container : v.identity.isContainer = true) {write : Nat → Writing (List Char)}
    {text : List Char}
    (h : opened.contains v.identity.code = false →
      w.Settles (opened.insert v.identity.code) write text) :
    w.Settles opened (fun n => guarded v (write n))
      (if opened.contains v.identity.code then v.placeholder else text) := by
  cases met : opened.contains v.identity.code with
  | true =>
    refine ⟨0, fun n _ stack first g => ?_⟩
    exact .guarded_of_mem ((g.mem_iff has container).2 met) _
  | false =>
    obtain ⟨m, h⟩ := h met
    refine ⟨m, fun n hn stack first g => .guarded ?_ (h n hn _ first (g.push has container))⟩
    exact fun hm => absurd ((g.mem_iff has container).1 hm) (by simp [met])

end World.Settles

-- ---------------------------------------------------------------------------
-- Tuples made while writing
-- ---------------------------------------------------------------------------

section
variable {w : World} {h : Heap} {opened : Opened}

/-- A tuple that was made for the moment is never met inside itself. -/
theorem writes_temporary {n : Nat} {items : List Value} {texts : List (List Char)}
    (several : 2 ≤ items.length)
    (written : ∀ stack first, w.Guarded opened stack first →
      Writes stack first (items.mapM (h.writeAt n)) texts)
    {stack : List Nat} {first tag : Tag} (g : w.Guarded opened stack first) (new : w.fresh ≤ tag)
    (lt : tag < first) (unused : (Identity.tagged tag).code ∉ stack) :
    Writes stack first (h.writeAt (n + 1) (.tuple tag items)) (enclose ['('] texts [')']) := by
  have tagged : (Value.tuple tag items).identity = .tagged tag :=
    if_neg (Nat.ne_of_gt (w.fresh_pos.trans_le new))
  rw [Heap.writeAt]
  · refine .guarded (by rwa [tagged]) ?_
    rw [tagged]
    exact (written _ first (g.push_temporary new lt)).all _ _
  · rintro item rfl
    simp at several

theorem settles_newTuple {items : List Value} {texts : List (List Char)}
    (several : 2 ≤ items.length)
    (written : w.Settles opened (fun n => items.mapM (h.writeAt n)) texts) :
    w.Settles opened (fun n => newTuple items >>= h.writeAt (n + 1))
      (enclose ['('] texts [')']) := by
  obtain ⟨levels, written⟩ := written
  refine ⟨levels, fun n hn stack first g fresh le => ?_⟩
  have later := g.mono (le.trans (Nat.le_succ fresh))
  obtain ⟨next, le', run⟩ := writes_temporary several (written n hn) later (g.fresh_le.trans le)
    (Nat.lt_succ_self _) (g.unused fresh le) _ (Nat.le_refl _)
  exact ⟨next, Nat.le_of_succ_le le', (runOn_bind_of_ok (runOn_newTuple ..) _).trans run⟩

theorem runOn_newPairs (es : List (Key × Value)) (stack : List Nat) (fresh : Tag) :
    ∃ xs next, fresh ≤ next ∧
      (es.mapM fun e => newTuple [e.1.value, e.2]).runOn ⟨stack, fresh⟩ =
        (.ok xs, ⟨stack, next⟩) ∧
      List.Forall₂ (fun e x => ∃ tag, fresh ≤ tag ∧ tag < next ∧ x = .tuple tag [e.1.value, e.2])
        es xs := by
  induction es generalizing fresh with
  | nil => exact ⟨[], fresh, Nat.le_refl _, rfl, .nil⟩
  | cons e es ih =>
    obtain ⟨xs, next, le, run, shape⟩ := ih (fresh + 1)
    refine ⟨_ :: xs, next, Nat.le_of_succ_le le, ?_, .cons ⟨fresh, Nat.le_refl _, le, rfl⟩ ?_⟩
    · rw [List.mapM_cons, runOn_bind_of_ok (runOn_newTuple ..), runOn_bind_of_ok run]
      rfl
    · refine shape.imp ?_
      rintro e x ⟨tag, ge, lt, rfl⟩
      exact ⟨tag, Nat.le_of_succ_le ge, lt, rfl⟩

/-- The items that a view shows are written as pairs, each with a guard of its own. -/
theorem settles_items {tag : Tag} {r : Ref .dict} (has : w.Has (Value.view tag .items r))
    {text : Value → List Char}
    (entries : opened.contains (Value.view tag .items r).identity.code = false →
      ∀ e ∈ (h.dict r).entries, w.Settles (opened.insert (Value.view tag .items r).identity.code)
        (fun n => [e.1.value, e.2].mapM (h.writeAt n)) [text e.1.value, text e.2]) :
    w.Settles opened (fun n => h.writeAt (n + 1) (.view tag .items r))
      (if opened.contains (Value.view tag .items r).identity.code then
        (Value.view tag .items r).placeholder
      else h.contentText text (.view tag .items r)) := by
  cases met : opened.contains (Value.view tag .items r).identity.code with
  | true =>
    refine ⟨0, fun n _ stack first g fresh le => ?_⟩
    obtain ⟨xs, next, le', made, -⟩ := runOn_newPairs (h.dict r).entries stack fresh
    refine ⟨next, le', ?_⟩
    beta_reduce
    rw [Heap.writeAt, Heap.viewed, runOn_bind_of_ok made]
    exact runOn_guarded_of_mem ((g.mem_iff has rfl).2 met)
  | false =>
    obtain ⟨levels, written⟩ := World.Settles.together (entries met)
    refine .of_succ ⟨levels, fun n hn stack first g fresh le => ?_⟩
    obtain ⟨xs, next, le', made, shape⟩ := runOn_newPairs (h.dict r).entries stack fresh
    have new : (Value.view tag .items r).identity.code ∉ stack :=
      fun hm => absurd ((g.mem_iff has rfl).1 hm) (by simp [met])
    have inside := (g.push has rfl).mono (le.trans le')
    have pairs : Writes ((Value.view tag .items r).identity.code :: stack) next
        (xs.mapM (h.writeAt (n + 1)))
        ((h.dict r).entries.map fun e => enclose ['('] [text e.1.value, text e.2] [')']) := by
      refine .mapM (List.forall₂_map_right_iff.2 (List.Forall₂.flip ?_))
      refine ((List.forall₂_and_left _ _).2 ⟨fun e he => he, shape⟩).imp ?_
      rintro e x ⟨he, tag', ge, lt, rfl⟩
      have fresh : w.fresh ≤ tag' := g.fresh_le.trans (le.trans ge)
      refine writes_temporary (by simp) (written n hn e he) inside fresh lt fun hm => ?_
      rcases List.mem_cons.1 hm with same | hm
      · exact World.Guarded.code_ne has rfl fresh same.symm
      · exact g.unused tag' (le.trans ge) hm
    obtain ⟨last, le'', run⟩ := Writes.guarded new (pairs.all _ _) next (Nat.le_refl _)
    refine ⟨last, le'.trans le'', ?_⟩
    beta_reduce
    rw [Heap.writeAt, Heap.viewed, runOn_bind_of_ok made]
    exact run

end

-- ---------------------------------------------------------------------------
-- Containers that are not being written
-- ---------------------------------------------------------------------------

namespace Heap

variable (h : Heap)

/-- The numbers of the containers that can lead back to themselves. -/
def guardable : Finset Nat :=
  (Finset.range h.lists.size).image (fun i => (Identity.stored .list i).code) ∪
    (Finset.range h.dicts.size).image (fun i => (Identity.stored .dict i).code) ∪
    (Finset.range h.sets.size).image (fun i => (Identity.stored .set i).code) ∪
    (Finset.range h.fresh).image (fun tag => (Identity.tagged tag).code)

/-- Those that are not being written. -/
def unopened (opened : Opened) : Finset Nat := h.guardable.filter (!opened.contains ·)

theorem card_unopened_lt (opened : Opened) : (h.unopened opened).card < h.reprDepth := by
  have stored (n : Nat) (code : Nat → Nat) : ((Finset.range n).image code).card ≤ n :=
    Finset.card_image_le.trans (Finset.card_range n).le
  have union (s t : Finset Nat) : (s ∪ t).card ≤ s.card + t.card := Finset.card_union_le s t
  have filtered : (h.unopened opened).card ≤ h.guardable.card := Finset.card_filter_le ..
  rw [reprDepth]
  unfold guardable at filtered
  grind

theorem card_unopened_insert {opened : Opened} {code : Nat} (mem : code ∈ h.guardable)
    (new : opened.contains code = false) :
    (h.unopened (opened.insert code)).card < (h.unopened opened).card := by
  refine Finset.card_lt_card ⟨fun c hc => ?_, fun all => ?_⟩
  · simp only [unopened, Finset.mem_filter, Std.TreeSet.contains_insert] at hc ⊢
    simp_all
  · have mem : code ∈ h.unopened opened := by simp [unopened, mem, new]
    have := all mem
    simp [unopened] at this

end Heap

/-- Tagged objects, lists, dicts and sets. -/
def Identity.isGuardable : Identity → Bool
  | .tagged _ | .stored .list _ | .stored .dict _ | .stored .set _ => true
  | _ => false

section
variable {w : World} {h : Heap}

theorem World.Models.code_mem (models : w.Models h) {v : Value} (has : w.Has v)
    (guardable : v.identity.isGuardable = true) : v.identity.code ∈ h.guardable := by
  have index_lt {shelf : Shelf} {i : Nat} (stored : v.identity = .stored shelf i) :
      i < h.extent shelf := models.extent shelf ▸ w.index_lt has stored
  have tag_lt {tag : Tag} (tagged : v.identity = .tagged tag) : tag < h.fresh :=
    models.fresh ▸ w.tag_lt has tagged
  simp only [Heap.guardable, Finset.mem_union, Finset.mem_image, Finset.mem_range]
  cases same : v.identity with
  | tagged tag => exact .inr ⟨tag, tag_lt same, rfl⟩
  | stored shelf i =>
    have lt := index_lt same
    rw [same] at guardable
    cases shelf with
    | list => exact .inl (.inl (.inl ⟨i, lt, rfl⟩))
    | dict => exact .inl (.inl (.inr ⟨i, lt, rfl⟩))
    | set => exact .inl (.inr ⟨i, lt, rfl⟩)
    | _ => cases guardable
  | _ => rw [same] at guardable; cases guardable

/-- Writing a value ends with its text. -/
theorem settles_writeAt (models : w.Models h) {k : Nat} {opened : Opened} {v : Value}
    (has : w.Has v) (room : (h.unopened opened).card < k) :
    w.Settles opened (h.writeAt · v) (h.textAt k opened v) := by
  induction size : (h.unopened opened).card using Nat.strong_induction_on
    generalizing k opened v with
  | _ m ih =>
  induction v using Value.inductParts with
  | step v ihParts =>
  obtain ⟨k, rfl⟩ := Nat.exists_eq_add_of_lt room
  have part {u : Value} (hu : u ∈ v.parts) := ihParts u hu (w.parts has hu)
  -- What is inside a container that is new has one container less to meet.
  have inside (guardable : v.identity.isGuardable = true)
      (new : opened.contains v.identity.code = false) {u : Value} (hu : w.Has u) {k : Nat}
      (room : (h.unopened opened).card ≤ k) :
      w.Settles (opened.insert v.identity.code) (h.writeAt · u)
        (h.textAt k (opened.insert v.identity.code) u) := by
    have less := h.card_unopened_insert (models.code_mem has guardable) new
    exact ih _ (size ▸ less) hu (less.trans_le room) rfl
  refine .of_succ ?_
  cases v with
  | tuple tag items =>
    by_cases one : items.length = 1
    · obtain ⟨item, rfl⟩ := List.length_eq_one_iff.1 one
      rw [h.textAt_tuple_one]
      exact .bind (part (List.mem_singleton_self _)) (.pure _)
    · have written (n : Nat) : h.writeAt (n + 1) (.tuple tag items) =
          guarded (.tuple tag items) (all (h.writeAt n) ['('] items [')']) := by
        rw [Heap.writeAt]
        rintro item rfl
        exact one rfl
      simp only [written, h.textAt_tuple one]
      refine .guarded has (Value.isContainer_tuple ..) fun new => .all (fun u hu => ?_) _ _
      have guardable : (Value.tuple tag items).identity.isGuardable = true := by
        rw [(w.interned has).identity_of_mem hu]
        rfl
      exact inside guardable new (w.parts has hu) (by omega)
  | slice tag start stop step =>
    rw [h.textAt_slice]
    exact .all (fun u hu => part hu) _ _
  | error tag e args =>
    rw [h.textAt_error]
    exact .all (fun u hu => part hu) _ _
  | list r =>
    rw [h.textAt_guarded rfl]
    refine .guarded has rfl fun new => .all (fun u hu => ?_) _ _
    exact inside rfl new (models.list r u hu) (Nat.le_add_right ..)
  | dict r =>
    rw [h.textAt_guarded rfl]
    refine .guarded has rfl fun new => .bind (.mapM fun e he => ?_) (.pure _)
    obtain ⟨hk, hv⟩ := models.dict r e he
    have key := inside rfl new hk (Nat.le_add_right _ k)
    exact .bind key (.bind (inside rfl new hv (Nat.le_add_right ..)) (.pure _))
  | set r =>
    cases empty : (h.set r).isEmpty with
    | true =>
      rw [h.textAt_emptySet empty]
      simp only [Heap.writeAt, empty, if_true]
      exact .pure _
    | false =>
      rw [h.textAt_guarded (by simp [Heap.isGuarded, empty])]
      simp only [Heap.writeAt, empty, Bool.false_eq_true, if_false]
      refine .guarded has rfl fun new => .all (fun u hu => ?_) _ _
      obtain ⟨key, hk, rfl⟩ := List.mem_map.1 hu
      exact inside rfl new (Keyed.has_keys (models.set r) key hk) (Nat.le_add_right ..)
  | view tag p r =>
    rw [h.textAt_guarded rfl]
    cases p with
    | items =>
      refine settles_items has fun new e he => .mapM fun u hu => ?_
      obtain ⟨hk, hv⟩ := models.dict r e he
      have both : w.Has [e.1.value, e.2] := World.has_cons hk (World.has_cons hv World.has_nil)
      exact inside rfl new (both u hu) (Nat.le_add_right ..)
    | keys =>
      refine .bind (.pure _) (.guarded has rfl fun new => .all (fun u hu => ?_) _ _)
      obtain ⟨key, hk, rfl⟩ := List.mem_map.1 hu
      exact inside rfl new (Keyed.has_keys (models.dict r) key hk) (Nat.le_add_right ..)
    | values =>
      refine .bind (.pure _) (.guarded has rfl fun new => .all (fun u hu => ?_) _ _)
      exact inside rfl new (Keyed.has_values (models.dict r) u hu) (Nat.le_add_right ..)
  | _ =>
    rw [h.textAt_leaf rfl rfl (by rintro ⟨⟩)]
    exact .pure _

/-- Writing a value as a text ends as well. -/
theorem settles_writeTextAt (models : w.Models h) {opened : Opened} {v : Value} (has : w.Has v) :
    ∃ text, w.Settles opened (h.writeTextAt · v) text ∧ (opened = ∅ → text = v.strIn h) := by
  have literal {u : Value} (hu : w.Has u) := settles_writeAt models hu (h.card_unopened_lt opened)
  induction v using Value.inductParts with
  | step v ih =>
    cases v with
    | str tag t => exact ⟨t.chars, .of_succ (.pure _), fun _ => rfl⟩
    | error tag e args =>
      match args with
      | [] => exact ⟨[], .of_succ (.pure _), fun _ => rfl⟩
      | [arg] =>
        have hu : w.Has arg := w.parts has (List.mem_singleton_self _)
        by_cases key : e = .key
        · refine ⟨h.textAt h.reprDepth opened arg, .of_succ ?_, ?_⟩
          · simpa only [Heap.writeTextAt, if_pos key] using literal hu
          · rintro rfl
            rw [Value.strIn, if_pos key]
            rfl
        · obtain ⟨text, settles, same⟩ := ih arg (List.mem_singleton_self _) hu
          refine ⟨text, .of_succ ?_, ?_⟩
          · simpa only [Heap.writeTextAt, if_neg key] using settles
          · rwa [Value.strIn, if_neg key]
      | x :: y :: zs =>
        have items := World.Settles.mapM fun u (hu : u ∈ x :: y :: zs) => literal (w.parts has hu)
        refine ⟨enclose ['('] ((x :: y :: zs).map (h.textAt h.reprDepth opened)) [')'], ?_, ?_⟩
        · exact .of_succ (.of_succ (settles_newTuple (by simp) items))
        · rintro rfl
          exact (enclosed_nil ['('] h.repr (x :: y :: zs) [')']).symm
    | _ => exact ⟨_, .of_succ (literal has), fun e => e ▸ rfl⟩

end

end ObjectModel
