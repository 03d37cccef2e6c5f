import ObjectModel.Proofs.Encoding.Order
import ObjectModel.Proofs.Text.Search

/-!
# Searching bytes

Only the first byte of a character is no continuation, so a text is found among the bytes of
another where it is found among the characters.

Main statement: `Utf8.cut?_encode`.
-/

namespace ObjectModel

namespace Occurrence

variable {α : Type} [BEq α] [LawfulBEq α] {sub front xs : List α}

theorem firstCut?_append_self (sub back : List α) :
    firstCut? sub (sub ++ back) = some ([], back) := by
  have here : sub.isPrefixOf (sub ++ back) = true :=
    List.isPrefixOf_iff_prefix.2 (List.prefix_append ..)
  cases h : sub ++ back with
  | nil =>
    obtain ⟨rfl, rfl⟩ := List.append_eq_nil_iff.1 h
    rfl
  | cons x xs => rw [firstCut?, ← h, if_pos here, List.drop_left]

/-- Items at which nothing starts are passed over. -/
theorem firstCut?_append (missing : ∀ i < front.length, ¬ sub <+: (front ++ xs).drop i) :
    firstCut? sub (front ++ xs) =
      (firstCut? sub xs).map fun found => (front ++ found.1, found.2) := by
  induction front with
  | nil => simp
  | cons x front ih =>
    have here := missing 0 (Nat.zero_lt_succ _)
    have later := ih fun i hi => missing (i + 1) (Nat.succ_lt_succ hi)
    rw [List.drop_zero, List.cons_append, ← List.isPrefixOf_iff_prefix] at here
    rw [List.cons_append, firstCut?, if_neg here, later, Option.map_map]
    rfl

end Occurrence

namespace Utf8

open Occurrence (firstCut?)
open String (utf8EncodeChar)

variable {a : UInt8} {bs rest : List UInt8} {n : Nat} {c : Char} {sub cs : List Char}

/-- All but the first byte of a spelling are continuations. -/
theorem Spells.exists_continuations (h : Spells a bs n rest) :
    isContinuation a = false ∧
      ∃ tail, bs = tail ++ rest ∧ ∀ b ∈ tail, isContinuation b = true := by
  have first (outside : a.toNat < 0x80 ∨ 0xC2 ≤ a.toNat) : isContinuation a = false := by
    rw [← Bool.not_eq_true, isContinuation_iff]
    omega
  cases h with
  | one ha => exact ⟨first (.inl ha), [], rfl, List.forall_mem_nil _⟩
  | two ha hb => exact ⟨first (.inr ha.1), [_], rfl, by simpa using hb⟩
  | three ha hb hc =>
    have hb := isContinuation_of_mayFollow hb
    exact ⟨first (.inr (by omega)), [_, _], rfl, by simp [hb, hc]⟩
  | four ha hb hc hd =>
    have hb := isContinuation_of_mayFollow hb
    exact ⟨first (.inr (by omega)), [_, _, _], rfl, by simp [hb, hc, hd]⟩

theorem exists_encodeChar_eq_cons (c : Char) :
    ∃ lead tail, utf8EncodeChar c = lead :: tail ∧ isContinuation lead = false ∧
      ∀ b ∈ tail, isContinuation b = true := by
  obtain ⟨lead, bs, encoded, spells⟩ := spells_encodeChar c []
  obtain ⟨first, tail, rfl, others⟩ := spells.exists_continuations
  simp only [List.append_nil] at encoded
  exact ⟨lead, tail, encoded, first, others⟩

/-- No text starts with a continuation. -/
theorem isContinuation_of_mem_head? {b : UInt8} (h : b ∈ (encode cs).head?) :
    isContinuation b = false := by
  cases cs with
  | nil => cases h
  | cons c cs =>
    obtain ⟨lead, tail, encoded, first, -⟩ := exists_encodeChar_eq_cons c
    rw [encode_cons, encoded] at h
    cases h
    exact first

theorem encode_prefix_iff : encode sub <+: encode cs ↔ sub <+: cs := by
  constructor
  · rintro ⟨rest, h⟩
    obtain ⟨back, rfl, -⟩ := exists_of_encode_eq_append h.symm
    exact List.prefix_append ..
  · rintro ⟨back, rfl⟩
    exact ⟨encode back, (encode_append ..).symm⟩

/-- A text that is not found at a character is not found within it either. -/
theorem not_encode_prefix_drop (missing : ¬ sub <+: c :: cs) :
    ∀ i < (utf8EncodeChar c).length, ¬ encode sub <+: (utf8EncodeChar c ++ encode cs).drop i := by
  obtain ⟨lead, tail, encoded, -, others⟩ := exists_encodeChar_eq_cons c
  intro i inside found
  cases i with
  | zero => exact missing (encode_prefix_iff.1 found)
  | succ i =>
    rw [encoded] at inside found
    have within : i < tail.length := Nat.lt_of_succ_lt_succ inside
    rw [List.cons_append, List.drop_succ_cons, List.drop_append_of_le_length (Nat.le_of_lt within),
      List.drop_eq_getElem_cons within] at found
    -- what is looked for would start with a continuation
    cases h : encode sub with
    | nil => exact missing (encode_eq_nil.1 h ▸ List.nil_prefix)
    | cons b bs =>
      rw [h, List.cons_append, List.cons_prefix_cons] at found
      have starts : isContinuation b = false :=
        isContinuation_of_mem_head? (show b ∈ (encode sub).head? by rw [h]; rfl)
      rw [found.1, others _ (List.getElem_mem within)] at starts
      cases starts

theorem firstCut?_encode (sub cs : List Char) :
    firstCut? (encode sub) (encode cs) =
      (firstCut? sub cs).map fun found => (encode found.1, encode found.2) := by
  induction cs with
  | nil =>
    cases sub with
    | nil => rfl
    | cons c sub =>
      obtain ⟨lead, tail, encoded, -⟩ := exists_encodeChar_eq_cons c
      rw [encode_cons, encoded]
      rfl
  | cons c cs ih =>
    by_cases here : sub <+: c :: cs
    · obtain ⟨back, split⟩ := here
      rw [← split, encode_append, Occurrence.firstCut?_append_self,
        Occurrence.firstCut?_append_self]
      rfl
    · rw [encode_cons, Occurrence.firstCut?_append (not_encode_prefix_drop here), ih, firstCut?,
        if_neg (mt List.isPrefixOf_iff_prefix.1 here), Option.map_map, Option.map_map]
      rfl

/-- The first occurrence among the bytes is that among the characters. -/
theorem cut?_encode (sub cs : List Char) :
    Occurrence.cut? UInt8.toUInt64 (encode sub) (encode cs) =
      (Text.cut? sub cs).map fun found => (encode found.1, encode found.2) := by
  rw [Occurrence.cut?_eq, firstCut?_encode, Text.firstCut?_eq]

end Utf8

end ObjectModel
