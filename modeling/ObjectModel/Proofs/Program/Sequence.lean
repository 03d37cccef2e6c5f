import ObjectModel.Proofs.Program.Exhaustion
import ObjectModel.Proofs.Sequence.Cursor

/-!
# Sequences from all sides

A list, a tuple, a text and a sequence of bytes have elements. Iterating, walking
backwards, slicing backwards and indexing from either end all give these. An
iterator over a text is always between two characters.

Main statement: `elements_from_all_sides`.
-/

namespace ObjectModel

open ObjectModel.Action World

namespace Program

variable {p q : Program} {s : Session} {x : Value} {xs : List Element}

/-- Wherever the program goes, the iterator stands behind the bytes of whole
characters and has the others ahead. -/
theorem Reachable.between_characters (reachable : p.Reachable) {tag : Tag} {t : Text}
    (held : p.Holds (.str tag t)) (leads : (p.perform (.iter (.str tag t))).Leads q) :
    ∃ before rest, t.chars = before ++ rest ∧
      q.heap.cursor ⟨p.heap.cursors.size⟩ = .text (Utf8.encode before).length rest := by
  obtain ⟨w, modeled⟩ := reachable.modeled
  obtain ⟨w₁, -, modeled₁⟩ := modeled.perform (o := .iter (.str tag t))
    (List.forall_mem_singleton.2 (modeled.has held))
  obtain ⟨opened, ho⟩ : ∃ s : Session, s = { p.session with heap := { p.heap with
    cursors := p.heap.cursors.push (.text 0 t.chars) } } := ⟨_, rfl⟩
  have run : (iter (.str tag t)).runOn p.session =
      (.ok (.cursor .text ⟨p.heap.cursors.size⟩), opened) := ho ▸ rfl
  have performed : p.perform (.iter (.str tag t)) =
      ⟨opened, [.cursor .text ⟨p.heap.cursors.size⟩] ++ p.values⟩ :=
    perform_of_ok (runOn_bind_of_ok run _)
  have has : w₁.Has (Value.cursor .text ⟨p.heap.cursors.size⟩) := by
    refine modeled₁.has (.value ?_)
    rw [performed]
    exact List.mem_append_left _ (List.mem_singleton_self _)
  have start : (p.perform (.iter (.str tag t))).heap.cursor ⟨p.heap.cursors.size⟩ =
      .text 0 t.chars := by
    rw [performed, heap, ho]
    exact Store.get_push_size ..
  obtain ⟨w₂, le, modeled₂⟩ := modeled₁.mark.leads leads
  have moved := leads_of_mark le modeled₂.models has
  rw [start] at moved
  exact Cursor.Leads.text moved

/-- All ways to read a sequence give the same elements, and values that show the
same element are equal. -/
theorem elements_from_all_sides (hx : s.heap.elements? x = some xs) :
    (Checked.Fits xs.length → ∃ n fresh,
      (call (.builtin .len) (.single x)).runOn s = (.ok n, s.reach fresh) ∧ n.IsInt xs.length) ∧
    (iter x).Opens s x xs xs ∧
    (call (.type (.cursor .reversed)) (.single x)).Opens s x xs xs.reverse ∧
    (∃ y t, (turned x).runOn s = (.ok y, t) ∧ y.kind = x.kind ∧
      t.heap.elements? y = some xs.reverse ∧ (iter y).Opens t y xs.reverse xs.reverse) ∧
    (∀ (k : Nat) (e : Element), xs[k]? = some e → ∀ (i : Int64) (tag : Tag),
      i.toInt = k ∨ i.toInt = k - xs.length → ∃ v fresh,
        (getItem x (.int tag i)).runOn s = (.ok v, s.reach fresh) ∧ v.Shows e) ∧
    (∀ (i : Int64) (tag : Tag), ¬ (-xs.length ≤ i.toInt ∧ i.toInt < xs.length) →
      (getItem x (.int tag i)).RaisesIndex s) ∧
    (∀ (tag : Tag) (t : Text), x = .str tag t → ∀ p : Program, p.Reachable → p.Holds x →
      ∀ q, (p.perform (.iter x)).Leads q → ∃ before rest, t.chars = before ++ rest ∧
        q.heap.cursor ⟨p.heap.cursors.size⟩ = .text (Utf8.encode before).length rest) ∧
    ∀ (e : Element) (v w : Value), v.Shows e → w.Shows e → ∀ h : Heap, h.equals v w = true := by
  refine ⟨runOn_len hx, opens_iter hx, opens_reversed hx, ?_, ?_, fun i tag outside =>
    raisesIndex_getItem hx outside tag, ?_, fun e v w hv hw => hv.equals hw⟩
  · have slice : Subscript.toSlice .none .none (.int Tag.shared (-1)) = .ok .turned := rfl
    obtain ⟨y, t, run, kind, made⟩ :=
      makes_getItem (s := s.tick) s.heap.fresh (show s.tick.heap.elements? x = some xs from hx) slice
    rw [Slice.select_turned] at made
    exact ⟨y, t, run, kind, made, opens_iter made⟩
  · intro k e he i tag hi
    refine runOn_getItem_shows hx ?_ he tag
    obtain ⟨inside, -⟩ := List.getElem?_eq_some_iff.1 he
    unfold Subscript.placeOf
    split <;> omega
  · rintro tag t rfl p reachable held q leads
    exact reachable.between_characters held leads

/-- A program that holds `é€`: two characters, of two bytes and of three. -/
def accents : Program := (start [] false).run [.text (.ofString "é€")]

theorem reachable_accents : accents.Reachable := (Reachable.start [] false).run (by decide)

theorem elements_from_all_sides_of_accents :
    let s := accents.session
    let x := Value.str 1 (.ofString "é€")
    s.heap.elements? x = some [.char 'é', .char '€'] ∧
    (call (.type (.cursor .reversed)) (.single x)).Opens s x [.char 'é', .char '€']
      [.char '€', .char 'é'] ∧
    (∃ v fresh, (getItem x (.int 0 (-1))).runOn s = (.ok v, s.reach fresh) ∧ v.Spells ['€']) ∧
    (getItem x (.int 0 2)).RaisesIndex s ∧
    ∃ before rest, ['é', '€'] = before ++ rest ∧
      ((accents.perform (.iter x)).perform (.next (.cursor .text ⟨0⟩))).heap.cursor ⟨0⟩ =
        .text (Utf8.encode before).length rest := by
  intro s x
  have elements : s.heap.elements? x = some [.char 'é', .char '€'] := rfl
  obtain ⟨-, -, reversed, -, item, outside, between, -⟩ := elements_from_all_sides elements
  have held : accents.Holds x := .value (List.mem_singleton_self x)
  have leads : (accents.perform (.iter x)).Leads
      ((accents.perform (.iter x)).perform (.next (.cursor .text ⟨0⟩))) :=
    .perform _ .refl (List.forall_mem_singleton.2 (.value (List.mem_cons_self ..)))
  exact ⟨elements, reversed, item 1 _ rfl (-1) 0 (.inr (by decide)),
    outside 2 0 (fun inside => absurd inside.2 (by decide)),
    between 1 _ rfl accents reachable_accents held _ leads⟩

end Program

end ObjectModel
