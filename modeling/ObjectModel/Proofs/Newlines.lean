import ObjectModel.Proofs.Encoding.Utf8
import ObjectModel.Proofs.Reading

/-!
# Folding newlines

Text that is folded piece by piece reads as if it had been folded as a whole,
unless a `\r\n` is split between two pieces. Lines end at the ends of characters
and split none.

Main statements: `foldNewlines_append` and `cutsNewline_iff`.
-/

namespace ObjectModel.File

open Utf8

-- ---------------------------------------------------------------------------
-- Characters
-- ---------------------------------------------------------------------------

/-- The one text ends within a `\r\n` and the other goes on there. -/
def Splits (front back : List Char) : Prop := front.getLast? = some '\r' ∧ back.head? = some '\n'

variable {front back : List Char}

/-- A text that ends with `\r` and one that begins with `\n`. -/
theorem Splits.exists_eq (h : Splits front back) :
    ∃ before after, front = before ++ ['\r'] ∧ back = '\n' :: after := by
  obtain ⟨before, hb⟩ := List.getLast?_eq_some_iff.1 h.1
  obtain ⟨after, ha⟩ := List.head?_eq_some_iff.1 h.2
  exact ⟨before, after, hb, ha⟩

theorem splits_singleton {c : Char} : Splits [c] back ↔ c = '\r' ∧ back.head? = some '\n' := by
  simp [Splits]

theorem Splits.append_left (h : Splits front back) (before : List Char) :
    Splits (before ++ front) back := by
  refine ⟨?_, h.2⟩
  rw [List.getLast?_append, h.1]
  rfl

theorem Splits.append_right (h : Splits front back) (after : List Char) :
    Splits front (back ++ after) := by
  refine ⟨h.1, ?_⟩
  rw [List.head?_append, h.2]
  rfl

theorem foldNewlines_cons {c : Char} {cs : List Char} (h : ¬ Splits [c] cs) :
    foldNewlines (c :: cs) = c :: foldNewlines cs := by
  rw [foldNewlines]
  rintro cs' rfl rfl
  exact h ⟨rfl, rfl⟩

theorem foldNewlines_append (h : ¬ Splits front back) :
    foldNewlines (front ++ back) = foldNewlines front ++ foldNewlines back := by
  induction front using foldNewlines.induct with
  | case1 => rfl
  | case2 cs ih =>
    rw [List.cons_append, List.cons_append, foldNewlines, foldNewlines,
      ih fun split => h (split.append_left ['\r', '\n']), List.cons_append]
  | case3 c cs plain ih =>
    have here : ¬ Splits [c] cs := fun split => by
      obtain ⟨rfl, hc⟩ := splits_singleton.1 split
      obtain ⟨after, rfl⟩ := List.head?_eq_some_iff.1 hc
      exact plain after rfl rfl
    have joined : ¬ Splits [c] (cs ++ back) := fun split => by
      cases cs with
      | nil => exact h split
      | cons d cs => exact here split
    rw [List.cons_append, foldNewlines_cons joined, foldNewlines_cons here,
      ih fun split => h (split.append_left [c]), List.cons_append]

/-- A `\r\n` that is split is not folded, which leaves a character more. -/
theorem length_foldNewlines_append_of_splits (h : Splits front back) :
    (foldNewlines (front ++ back)).length <
      (foldNewlines front).length + (foldNewlines back).length := by
  obtain ⟨before, after, rfl, rfl⟩ := h.exists_eq
  have first {cs : List Char} : ¬ Splits before ('\r' :: cs) := fun split => by cases split.2
  have second : ¬ Splits ['\n'] after := fun split => by cases (splits_singleton.1 split).1
  have whole : foldNewlines (before ++ ['\r'] ++ '\n' :: after) =
      foldNewlines before ++ '\n' :: foldNewlines after := by
    rw [List.append_assoc, List.singleton_append, foldNewlines_append first, foldNewlines]
  rw [whole, foldNewlines_append first, foldNewlines_cons second]
  simp only [List.length_append, List.length_cons, foldNewlines, List.length_nil]
  omega

theorem length_foldNewlines_append_le (front back : List Char) :
    (foldNewlines (front ++ back)).length ≤
      (foldNewlines front).length + (foldNewlines back).length := by
  by_cases h : Splits front back
  · exact (length_foldNewlines_append_of_splits h).le
  · rw [foldNewlines_append h, List.length_append]

-- ---------------------------------------------------------------------------
-- Bytes
-- ---------------------------------------------------------------------------

/-- What is left of a content begins with the second byte of a `\r\n`. -/
def CutsNewline (content rest : List UInt8) : Prop :=
  ∃ before after, content = before ++ 0x0D :: 0x0A :: after ∧ rest = 0x0A :: after

theorem cutsNewline_iff :
    CutsNewline (encode (front ++ back)) (encode back) ↔ Splits front back := by
  constructor
  · rintro ⟨before, after, content, rest⟩
    have ends : encode front = before ++ [0x0D] := by
      rw [encode_append, rest] at content
      exact List.append_cancel_right (content.trans (List.append_assoc before [0x0D] _).symm)
    obtain ⟨_, none, rfl, -, nothing⟩ :=
      exists_of_encode_eq_cons (by decide : (0x0D : UInt8).toNat < 0x80) ends
    have begins : encode back = [] ++ 0x0A :: after := rest
    obtain ⟨none', _, rfl, nothing', -⟩ :=
      exists_of_encode_eq_cons (by decide : (0x0A : UInt8).toNat < 0x80) begins
    rw [encode_eq_nil.1 nothing.symm, encode_eq_nil.1 nothing'.symm]
    exact ⟨List.getLast?_concat, rfl⟩
  · intro h
    obtain ⟨before, after, rfl, rfl⟩ := h.exists_eq
    refine ⟨encode before, encode after, ?_, rfl⟩
    rw [encode_append, encode_append, List.append_assoc]
    rfl

/-- A line ends at the end of a character. -/
theorem Line.exists_eq {cs : List Char} {line rest : List UInt8} (h : Line (encode cs) line rest) :
    ∃ front back, cs = front ++ back ∧ line = encode front ∧ rest = encode back := by
  generalize content : encode cs = bytes at h
  cases h with
  | @ended before rest clean =>
    obtain ⟨front, back, rfl, rfl, rfl⟩ :=
      exists_of_encode_eq_cons (by decide : (0x0A : UInt8).toNat < 0x80) content
    refine ⟨front ++ ['\n'], back, ?_, ?_, rfl⟩
    · rw [List.append_assoc]
      rfl
    · rw [encode_append]
      rfl
  | last => exact ⟨cs, [], (List.append_nil cs).symm, content.symm, rfl⟩

end ObjectModel.File
