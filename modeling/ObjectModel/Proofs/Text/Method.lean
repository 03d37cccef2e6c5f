import ObjectModel.Proofs.Iteration
import ObjectModel.Proofs.Slice.Subscript

/-!
# Calling the methods of texts

What calling a method of a text comes to: `split` makes a list of texts, `join`
puts those of a list together and `replace` makes a text, and `find` and `count`
make a number. None of these calls fails on arguments of the right kinds.
-/

namespace ObjectModel

open ObjectModel.Action

/-- The items of the list are the texts of these characters. -/
def Heap.Texts (h : Heap) (r : Ref .list) (parts : List (List Char)) : Prop :=
  List.Forall₂ Value.Spells (h.list r) parts

theorem Heap.Texts.map_chars {h : Heap} {r : Ref .list} {parts : List (List Char)}
    (texts : h.Texts r parts) : (h.list r).map Value.chars = parts := by
  have chars : List.Forall₂ (fun v cs => v.chars = cs) (h.list r) parts :=
    texts.imp fun _ _ spells => spells.chars
  rw [← List.forall₂_eq_eq_eq, List.forall₂_map_left_iff]
  exact chars

theorem Heap.Texts.exists_spells {h : Heap} {r : Ref .list} {parts : List (List Char)}
    (texts : h.Texts r parts) : ∀ v ∈ h.list r, ∃ cs, v.Spells cs := by
  unfold Texts at texts
  generalize h.list r = vs at texts
  induction texts with
  | nil => exact List.forall_mem_nil _
  | cons spells _ ih => exact List.forall_mem_cons.2 ⟨⟨_, spells⟩, ih⟩

namespace TextMethod

variable {s : Session}

/-- Up to two bounds of a search, as arguments. -/
inductive Bounds : List Value → Option Int64 → Option Int64 → Prop
  | none : Bounds [] none none
  | start {v : Value} {a : Option Int64} (hv : Subscript.IsBound v a) : Bounds [v] a none
  | both {v u : Value} {a b : Option Int64} (hv : Subscript.IsBound v a)
    (hu : Subscript.IsBound u b) : Bounds [v, u] a b

theorem searchArguments_eq {vs : List Value} {a b : Option Int64} (h : Bounds vs a b) (m : Method)
    (tag : Tag) (sub : Text) :
    searchArguments m ⟨.str tag sub :: vs, ∅⟩ = .ok (sub.chars, a, b) := by
  cases h with
  | none => rfl
  | start hv => cases hv <;> rfl
  | both hv hu => cases hv <;> cases hu <;> rfl

theorem runOn_callMethod_str {name : List Char} {m : Method}
    (found : (Method.ofName? (String.ofList name)).filter supports = some m) (tag : Tag) (t : Text)
    (a : Arguments) (s : Session) :
    (callMethod (.str tag t) name a).runOn s = (call t m a).runOn s.tick :=
  runOn_callMethod (v := .str tag t) rfl found a s

theorem exists_spells_newChars (cs : List Char) (s : Session) :
    ∃ u s', (newChars cs).runOn s = (.ok u, s') ∧ u.Spells cs := by
  obtain ⟨tag, fresh, run⟩ := runOn_newChars cs s
  exact ⟨_, _, run, tag, rfl⟩

-- ---------------------------------------------------------------------------
-- Lists of texts
-- ---------------------------------------------------------------------------

theorem runOn_mapM_newChars (parts : List (List Char)) (s : Session) :
    ∃ vs s', (parts.mapM newChars).runOn s = (.ok vs, s') ∧
      List.Forall₂ Value.Spells vs parts := by
  induction parts generalizing s with
  | nil => exact ⟨[], s, rfl, .nil⟩
  | cons part parts ih =>
    obtain ⟨v, s', made, spells⟩ := exists_spells_newChars part s
    obtain ⟨vs, s'', run, spelled⟩ := ih s'
    refine ⟨v :: vs, s'', ?_, .cons spells spelled⟩
    rw [List.mapM_cons, runOn_bind_of_ok made, runOn_bind_of_ok run]
    rfl

theorem runOn_newTexts (parts : List (List Char)) (s : Session) :
    ∃ r s', (newTexts parts).runOn s = (.ok (.list r), s') ∧ s'.heap.Texts r parts := by
  obtain ⟨vs, s', run, spelled⟩ := runOn_mapM_newChars parts s
  obtain ⟨s'', made, holds, -⟩ := runOn_newList vs s'
  refine ⟨_, s'', ?_, holds ▸ spelled⟩
  rw [newTexts, runOn_bind_of_ok run, made]

theorem runOn_split_blank (tag tag' : Tag) (t : Text) (m : Int64) (s : Session) :
    ∃ r s', (callMethod (.str tag t) "split".toList ⟨[.none, .int tag' m], ∅⟩).runOn s =
      (.ok (.list r), s') ∧ s'.heap.Texts r (Text.splitBlank (limitOf m) t.chars) := by
  rw [runOn_callMethod_str (m := .split) rfl]
  exact runOn_newTexts _ s.tick

theorem runOn_split_limited (tag tag₁ tag₂ : Tag) (t : Text) (c : Char) (m : Int64) (s : Session) :
    ∃ r s', (callMethod (.str tag t) "split".toList
        ⟨[.str tag₁ (.ofChar c), .int tag₂ m], ∅⟩).runOn s = (.ok (.list r), s') ∧
      s'.heap.Texts r (Text.splitOn c (limitOf m) t.chars) := by
  rw [runOn_callMethod_str (m := .split) rfl]
  exact runOn_newTexts _ s.tick

theorem runOn_split (tag tag' : Tag) (t : Text) (c : Char) (s : Session) :
    ∃ r s', (callMethod (.str tag t) "split".toList (.single (.str tag' (.ofChar c)))).runOn s =
      (.ok (.list r), s') ∧ s'.heap.Texts r (Text.splitOn c none t.chars) := by
  rw [runOn_callMethod_str (m := .split) rfl]
  exact runOn_newTexts _ s.tick

-- ---------------------------------------------------------------------------
-- Joining
-- ---------------------------------------------------------------------------

theorem foldl_chars (vs : List Value) (n : Nat) (parts : List (List Char)) :
    vs.foldl (fun (acc : Nat × List (List Char)) v => (acc.1 + 1, v.chars :: acc.2)) (n, parts) =
      (n + vs.length, (vs.map Value.chars).reverse ++ parts) := by
  induction vs generalizing n parts with
  | nil => rfl
  | cons v vs ih =>
    rw [List.foldl_cons, ih, List.map_cons, List.reverse_cons, List.append_assoc,
      List.length_cons, Nat.add_assoc, Nat.add_comm 1]
    rfl

theorem runOn_join {r : Ref .list} {parts : List (List Char)} (texts : s.heap.Texts r parts)
    (tag : Tag) (t : Text) :
    ∃ u s', (callMethod (.str tag t) "join".toList (.single (.list r))).runOn s = (.ok u, s') ∧
      u.Spells (t.chars.intercalate parts) := by
  have same : (s.tick.heap.list r).map Value.chars = parts := texts.map_chars
  have joined : ∃ cursors, (join t (.list r)).runOn s.tick =
      (newChars (t.chars.intercalate parts)).runOn (s.tick.withCursors cursors) := by
    refine (runOn_fold_list (f := fun acc v => (acc.1 + 1, v.chars :: acc.2)) ?_ (0, [])).imp
      fun cursors read => (runOn_bind_of_ok read _).trans ?_
    · intro v hv acc s'
      obtain ⟨cs, tag, rfl⟩ := texts.exists_spells v hv
      rfl
    · rw [foldl_chars, same]
      dsimp only
      rw [List.append_nil, List.reverse_reverse]
  obtain ⟨cursors, run⟩ := joined
  obtain ⟨u, s', made, spells⟩ := exists_spells_newChars (t.chars.intercalate parts)
    (s.tick.withCursors cursors)
  refine ⟨u, s', ?_, spells⟩
  have plain : (Arguments.single (.list r)).plain "join" 1 1 = .ok () := rfl
  rw [runOn_callMethod_str (m := .join) rfl, call, runOn_bind_of_ok (runOn_lift_of_ok plain _)]
  exact run.trans made

-- ---------------------------------------------------------------------------
-- Replacing, finding and counting
-- ---------------------------------------------------------------------------

theorem runOn_replace (tag tag₁ tag₂ tag₃ : Tag) (t old new : Text) (m : Int64) (s : Session) :
    ∃ u s', (callMethod (.str tag t) "replace".toList
        ⟨[.str tag₁ old, .str tag₂ new, .int tag₃ m], ∅⟩).runOn s = (.ok u, s') ∧
      u.Spells (Text.replace old.chars new.chars (limitOf m) t.chars) := by
  rw [runOn_callMethod_str (m := .replace) rfl]
  exact exists_spells_newChars _ s.tick

theorem runOn_find {vs : List Value} {a b : Option Int64} (h : Bounds vs a b) (tag tag' : Tag)
    (t sub : Text) (s : Session) :
    ∃ made s', (callMethod (.str tag t) "find".toList ⟨.str tag' sub :: vs, ∅⟩).runOn s =
      (.ok (.int made ((t.find? sub.chars a b).elim (-1) Int64.ofNat)), s') := by
  rw [runOn_callMethod_str (m := .find) rfl]
  obtain ⟨made, fresh, run⟩ :=
    runOn_newInt ((t.find? sub.chars a b).elim (-1) Int64.ofNat) s.tick
  refine ⟨made, s.tick.reach fresh,
    (runOn_bind_of_ok (runOn_lift_of_ok (searchArguments_eq h ..) _) _).trans ?_⟩
  rw [← run]
  dsimp only
  cases t.find? sub.chars a b <;> rfl

theorem runOn_count {vs : List Value} {a b : Option Int64} (h : Bounds vs a b) (tag tag' : Tag)
    (t sub : Text) (s : Session) :
    ∃ made s', (callMethod (.str tag t) "count".toList ⟨.str tag' sub :: vs, ∅⟩).runOn s =
      (.ok (.int made (Int64.ofNat (t.countWithin sub.chars a b))), s') := by
  rw [runOn_callMethod_str (m := .count) rfl]
  obtain ⟨made, fresh, run⟩ := runOn_newInt (Int64.ofNat (t.countWithin sub.chars a b)) s.tick
  exact ⟨made, _, (runOn_bind_of_ok (runOn_lift_of_ok (searchArguments_eq h ..) _) _).trans run⟩

end TextMethod

end ObjectModel
