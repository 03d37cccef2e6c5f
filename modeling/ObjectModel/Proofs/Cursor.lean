import Mathlib.Logic.Relation
import ObjectModel.Heap.Basic

/-!
# How cursors move

A cursor moves one place at a time and never from its end. One that counts the
items of another iterator has no end of its own: it is exhausted when that one
is.

Main statement: `Leads.eq_of_isOver`.
-/

namespace ObjectModel.Cursor

/-- What one step makes of a cursor, whatever its source holds at the time. -/
inductive Step : Cursor → Cursor → Prop
  | list (source : Ref .list) (position : Nat) :
    Step (.list source position false) (.list source (position + 1) false)
  | listEnd (source : Ref .list) (position : Nat) :
    Step (.list source position false) (.list source position true)
  | dict (part : Part) (source : Ref .dict) (position : Nat) :
    Step (.dict part source position false) (.dict part source (position + 1) false)
  | dictEnd (part : Part) (source : Ref .dict) (position : Nat) :
    Step (.dict part source position false) (.dict part source position true)
  | items (v : Value) (rest : List Value) : Step (.items (v :: rest)) (.items rest)
  | bytes (b : UInt8) (rest : List UInt8) : Step (.bytes (b :: rest)) (.bytes rest)
  | text (offset : Nat) (c : Char) (rest : List Char) :
    Step (.text offset (c :: rest)) (.text (offset + c.utf8Size) rest)
  | backwardText (c : Char) (rest : List Char) :
    Step (.backwardText (c :: rest)) (.backwardText rest)
  | range (current step : Int64) (n : Nat) :
    Step (.range current step (n + 1)) (.range (current + step) step n)
  | backwardList (source : Ref .list) (n : Nat) :
    Step (.backwardList source (n + 1)) (.backwardList source n)
  | backwardListEnd (source : Ref .list) (n : Nat) :
    Step (.backwardList source (n + 1)) (.backwardList source 0)
  | backwardBytearray (source : Ref .bytearray) (n : Nat) :
    Step (.backwardBytearray source (n + 1)) (.backwardBytearray source n)
  | backwardBytearrayEnd (source : Ref .bytearray) (n : Nat) :
    Step (.backwardBytearray source (n + 1)) (.backwardBytearray source 0)
  | backwardRange (source : Range) (n : Nat) :
    Step (.backwardRange source (n + 1)) (.backwardRange source n)
  | zipEnd {inputs : List Value} (some : inputs ≠ []) :
    Step (.zip inputs false) (.zip inputs true)
  | enumerate (input : Value) (counter counter' : Option Int64) :
    Step (.enumerate input counter) (.enumerate input counter')

/-- The iterators that a cursor steps. -/
def inputs : Cursor → List Value
  | .zip inputs _ => inputs
  | .enumerate input _ => [input]
  | _ => []

/-- Where a cursor comes to in any number of steps. -/
abbrev Leads : Cursor → Cursor → Prop := Relation.ReflTransGen Step

/-- The cursor yields nothing more, whatever its source comes to hold. -/
def isOver : Cursor → Bool
  | .list _ _ done | .dict _ _ _ done => done
  | .items rest => rest.isEmpty
  | .bytes rest => rest.isEmpty
  | .text _ rest | .backwardText rest => rest.isEmpty
  | .range _ _ remaining => remaining == 0
  | .backwardList _ bound | .backwardBytearray _ bound | .backwardRange _ bound => bound == 0
  | .zip inputs done => done || inputs.isEmpty
  | .enumerate .. => false

variable {c c' : Cursor}

theorem Step.not_isOver (h : Step c c') : c.isOver = false := by
  cases h with
  | zipEnd some => simp [isOver, some]
  | _ => rfl

/-- A cursor goes on stepping the same iterators. -/
theorem Step.inputs_eq (h : Step c c') : c'.inputs = c.inputs := by
  cases h <;> rfl

/-- A cursor at its end stays there. -/
theorem Leads.eq_of_isOver (h : c.Leads c') (finished : c.isOver = true) : c' = c := by
  induction h with
  | refl => rfl
  | tail _ step ih =>
    subst ih
    cases step.not_isOver.symm.trans finished

/-- A cursor that counts the items of an iterator keeps counting those. -/
theorem Leads.enumerate {input : Value} {counter : Option Int64}
    (h : (Cursor.enumerate input counter).Leads c') :
    ∃ counter', c' = .enumerate input counter' := by
  induction h with
  | refl => exact ⟨counter, rfl⟩
  | tail _ step ih =>
    obtain ⟨_, rfl⟩ := ih
    cases step
    exact ⟨_, rfl⟩

/-- A cursor of a text stands behind as many bytes as the characters before it have. -/
theorem Leads.text {cs : List Char} (h : (Cursor.text 0 cs).Leads c') :
    ∃ before rest, cs = before ++ rest ∧ c' = .text (Utf8.encode before).length rest := by
  induction h with
  | refl => exact ⟨[], cs, rfl, rfl⟩
  | tail _ step ih =>
    obtain ⟨before, rest, rfl, rfl⟩ := ih
    cases step with
    | text _ c rest =>
      refine ⟨before ++ [c], rest, List.append_cons .., ?_⟩
      rw [Utf8.encode, Utf8.encode, List.flatMap_append, List.length_append, List.flatMap_singleton,
        String.length_utf8EncodeChar]

end ObjectModel.Cursor
