import ObjectModel.Proofs.Text.Method

/-!
# Cutting at a separator

Cutting a text at a character, with as many cuts as a limit allows. The parts are
those that replacing the character puts a new text between, there is one more of
them than counting finds, and putting the character between them gives the text
back.

Main statement: `split_join_agree`.
-/

namespace ObjectModel.Text

variable {sep c : Char} {cs : List Char} {limit : Option Nat}

theorem cut?_cons_self (sep : Char) (cs : List Char) :
    cut? [sep] (sep :: cs) = some ([], cs) := by
  simp [cut?, Occurrence.cut?_eq, Occurrence.firstCut?]

theorem cut?_cons_of_ne (ne : c ≠ sep) (cs : List Char) :
    cut? [sep] (c :: cs) = (cut? [sep] cs).map fun (front, back) => (c :: front, back) := by
  simp [cut?, Occurrence.cut?_eq, Occurrence.firstCut?, ne.symm]

-- ---------------------------------------------------------------------------
-- One character
-- ---------------------------------------------------------------------------

/-- The parts of a text, character by character: a separator ends a part while cuts are
left, and any other character belongs to the first part of what comes after it. -/
inductive Parts (sep : Char) : Option Nat → List Char → List (List Char) → Prop
  | whole {limit : Option Nat} {cs : List Char} (h : limit = some 0 ∨ cs = []) :
      Parts sep limit cs [cs]
  | cut {limit : Option Nat} {cs : List Char} {parts : List (List Char)} (hl : limit ≠ some 0)
      (rest : Parts sep (spend limit) cs parts) : Parts sep limit (sep :: cs) ([] :: parts)
  | keep {limit : Option Nat} {c : Char} {cs part : List Char} {parts : List (List Char)}
      (ne : c ≠ sep) (rest : Parts sep limit cs (part :: parts)) :
      Parts sep limit (c :: cs) ((c :: part) :: parts)

variable {parts : List (List Char)}

theorem Parts.ne_nil (h : Parts sep limit cs parts) : parts ≠ [] := by
  cases h <;> exact List.cons_ne_nil _ _

theorem splitOn_zero (sep : Char) (cs : List Char) : splitOn sep (some 0) cs = [cs] := by
  induction cs with
  | nil => rfl
  | cons c cs ih => rw [splitOn, if_neg (fun h => h.2 rfl), ih]

theorem parts_splitOn (sep : Char) (limit : Option Nat) (cs : List Char) :
    Parts sep limit cs (splitOn sep limit cs) := by
  induction cs generalizing limit with
  | nil => exact .whole (.inr rfl)
  | cons c cs ih =>
    by_cases hl : limit = some 0
    · rw [hl, splitOn_zero]
      exact .whole (.inl rfl)
    by_cases same : c = sep
    · rw [splitOn, if_pos ⟨same, hl⟩, same]
      exact .cut hl (ih _)
    · have rest := ih limit
      obtain ⟨part, parts, first⟩ := List.exists_cons_of_ne_nil rest.ne_nil
      rw [splitOn, if_neg (mt And.left same), first]
      exact .keep same (first ▸ rest)

/-- Searching for the separator finds the same parts. -/
theorem Parts.pieces_eq (h : Parts sep limit cs parts) : pieces [sep] limit cs = parts := by
  have ne : [sep] ≠ [] := List.cons_ne_nil _ _
  induction h with
  | @whole limit cs h =>
    obtain rfl | rfl := h
    · rw [pieces, dif_pos (.inl rfl)]
    · exact pieces_of_none rfl
  | cut hl rest ih => rw [pieces_of_some ne hl (cut?_cons_self ..), ih]
  | @keep limit c cs part parts other rest ih =>
    by_cases hl : limit = some 0
    · rw [pieces, dif_pos (.inl hl)] at ih ⊢
      cases ih
      rfl
    cases h : cut? [sep] cs with
    | none =>
      rw [pieces_of_none h] at ih
      cases ih
      exact pieces_of_none (by rw [cut?_cons_of_ne other, h]; rfl)
    | some found =>
      rw [pieces_of_some ne hl h] at ih
      cases ih
      exact pieces_of_some ne hl (by rw [cut?_cons_of_ne other, h]; rfl)

/-- The parts, with the separator between them, are the text. -/
theorem Parts.intercalate_eq (h : Parts sep limit cs parts) : [sep].intercalate parts = cs := by
  induction h with
  | whole => simp
  | cut _ rest ih =>
    rw [List.intercalate_cons_of_ne_nil rest.ne_nil, ih]
    rfl
  | @keep _ _ _ _ parts _ _ ih =>
    rw [← ih]
    cases parts <;> simp

/-- There is one part more than cuts, and a cut at each separator as far as the limit goes. -/
theorem Parts.length_eq (h : Parts sep limit cs parts) :
    parts.length = limit.elim (cs.count sep) (min · (cs.count sep)) + 1 := by
  induction h with
  | @whole limit _ h => obtain rfl | rfl := h <;> [simp; cases limit <;> simp]
  | @cut limit _ _ hl _ ih =>
    rw [List.length_cons, ih, List.count_cons_self]
    cases limit with
    | none => rfl
    | some n =>
      have : n ≠ 0 := mt (congrArg some) hl
      simp only [spend, Option.map_some, Option.elim_some]
      omega
  | keep ne _ ih => rw [List.count_cons_of_ne ne, ← ih, List.length_cons, List.length_cons]

/-- Only the last part can hold separators, those that a limit left. -/
theorem Parts.exists_last (h : Parts sep limit cs parts) :
    ∃ firsts last, parts = firsts ++ [last] ∧ (∀ part ∈ firsts, sep ∉ part) ∧
      (limit = none → sep ∉ last) := by
  induction h with
  | @whole _ cs h =>
    refine ⟨[], cs, rfl, List.forall_mem_nil _, ?_⟩
    rintro rfl
    obtain h | rfl := h
    · cases h
    · exact List.not_mem_nil
  | cut _ _ ih =>
    obtain ⟨firsts, last, rfl, free, unlimited⟩ := ih
    refine ⟨[] :: firsts, last, rfl, List.forall_mem_cons.2 ⟨List.not_mem_nil, free⟩, ?_⟩
    rintro rfl
    exact unlimited rfl
  | @keep _ c _ _ _ ne _ ih =>
    obtain ⟨firsts, last, parts, free, unlimited⟩ := ih
    cases firsts with
    | nil =>
      obtain ⟨rfl, rfl⟩ := List.cons_eq_cons.1 parts
      refine ⟨[], _, rfl, List.forall_mem_nil _, fun none => ?_⟩
      exact List.not_mem_cons_of_ne_of_not_mem ne.symm (unlimited none)
    | cons first firsts =>
      cases parts
      obtain ⟨first, rest⟩ := List.forall_mem_cons.1 free
      refine ⟨(c :: _) :: firsts, last, rfl, List.forall_mem_cons.2 ⟨?_, rest⟩, unlimited⟩
      exact List.not_mem_cons_of_ne_of_not_mem ne.symm first

theorem Parts.splitOn_eq (h : Parts sep none cs parts) : cs.splitOn sep = parts := by
  generalize unlimited : none = limit at h
  induction h with
  | whole h =>
    obtain rfl | rfl := h
    · cases unlimited
    · exact List.splitOn_nil sep
  | cut _ _ ih =>
    subst unlimited
    rw [List.splitOn_cons_eq_if_modifyHead, if_pos (beq_self_eq_true _), ih rfl]
  | keep ne _ ih =>
    rw [List.splitOn_cons_eq_if_modifyHead, if_neg (by simpa using ne), ih unlimited]
    rfl

/-- Parts without separators, put together with separators, are cut apart again. -/
theorem splitOn_intercalate (ne : parts ≠ []) (free : ∀ part ∈ parts, sep ∉ part) :
    splitOn sep none ([sep].intercalate parts) = parts := by
  exact (parts_splitOn sep none _).splitOn_eq.symm.trans (List.splitOn_intercalate sep free ne)

-- ---------------------------------------------------------------------------
-- Counting
-- ---------------------------------------------------------------------------

theorem countOccurrences_singleton (sep : Char) (cs : List Char) :
    countOccurrences [sep] cs = cs.count sep := by
  have parts := parts_splitOn sep none cs
  rw [countOccurrences, parts.pieces_eq, parts.length_eq]
  rfl

theorem window?_none (t : Text) : t.window? none none = some (0, t.chars) := by
  simp [window?, clampBound]

theorem countWithin_singleton (t : Text) (sep : Char) :
    t.countWithin [sep] none none = t.chars.count sep := by
  rw [countWithin, window?_none]
  exact countOccurrences_singleton sep t.chars

end ObjectModel.Text

namespace ObjectModel.TextMethod

open ObjectModel.Action ObjectModel.Text

theorem elim_limitOf (m : Int64) (n : Nat) :
    (limitOf m).elim n (min · n) = if m < 0 then n else min m.toInt.toNat n := by
  rw [limitOf]
  split <;> rfl

theorem not_mem_of_parts {sep : Char} {m : Int64} {cs : List Char} {parts : List (List Char)}
    (h : Parts sep (limitOf m) cs parts) :
    ∀ part ∈ if m < 0 then parts else parts.dropLast, sep ∉ part := by
  obtain ⟨firsts, last, rfl, free, unlimited⟩ := h.exists_last
  split
  · next negative =>
    have final : sep ∉ last := unlimited (if_pos negative)
    exact List.forall_mem_append.2 ⟨free, List.forall_mem_singleton.2 final⟩
  · rw [List.dropLast_concat]
    exact free

/-- Splitting at a character ends with a list of parts. Joined by a text, they are what
replacing the character by the text gives; joined by the character, they are the text
itself; there is one more of them than counting finds or the limit allows; and none but
the last of a limited split holds the character. Joining texts without the character by
it, and splitting that, makes a list of the same texts. -/
theorem split_join_agree (tag tag₁ tag₂ tag₃ : Tag) (x t : Text) (c : Char) (m : Int64)
    (s : Session) :
    (∃ r s₁ parts,
      (callMethod (.str tag x) "split".toList ⟨[.str tag₁ (.ofChar c), .int tag₂ m], ∅⟩).runOn s =
        (.ok (.list r), s₁) ∧
      s₁.heap.Texts r parts ∧
      (∃ u s₂ w s₃ cs,
        (callMethod (.str tag₃ t) "join".toList (.single (.list r))).runOn s₁ = (.ok u, s₂) ∧
        (callMethod (.str tag x) "replace".toList
          ⟨[.str tag₁ (.ofChar c), .str tag₃ t, .int tag₂ m], ∅⟩).runOn s₂ = (.ok w, s₃) ∧
        u.Spells cs ∧ w.Spells cs) ∧
      (∃ u s₂,
        (callMethod (.str tag₁ (.ofChar c)) "join".toList (.single (.list r))).runOn s₁ =
          (.ok u, s₂) ∧
        u.Spells x.chars) ∧
      (∃ made s₂ n,
        (callMethod (.str tag x) "count".toList (.single (.str tag₁ (.ofChar c)))).runOn s₁ =
          (.ok (.int made (Int64.ofNat n)), s₂) ∧
        n = x.chars.count c ∧
        parts.length = (if m < 0 then n else min m.toInt.toNat n) + 1) ∧
      ∀ part ∈ if m < 0 then parts else parts.dropLast, c ∉ part) ∧
    ∀ r parts, s.heap.Texts r parts → parts ≠ [] → (∀ part ∈ parts, c ∉ part) →
      ∃ u s₁ r' s₂,
        (callMethod (.str tag₁ (.ofChar c)) "join".toList (.single (.list r))).runOn s =
          (.ok u, s₁) ∧
        (callMethod u "split".toList (.single (.str tag₁ (.ofChar c)))).runOn s₁ =
          (.ok (.list r'), s₂) ∧
        s₂.heap.Texts r' parts := by
  constructor
  · obtain ⟨r, s₁, run, texts⟩ := runOn_split_limited tag tag₁ tag₂ x c m s
    have parts := parts_splitOn c (limitOf m) x.chars
    refine ⟨r, s₁, _, run, texts, ?_, ?_, ?_, ?_⟩
    · obtain ⟨u, s₂, joined, spells⟩ := runOn_join texts tag₃ t
      obtain ⟨w, s₃, replaced, spells'⟩ := runOn_replace tag tag₁ tag₃ tag₂ x (.ofChar c) t m s₂
      refine ⟨u, s₂, w, s₃, _, joined, replaced, spells, ?_⟩
      have same : Text.replace [c] t.chars (limitOf m) x.chars = _ :=
        congrArg t.chars.intercalate parts.pieces_eq
      rw [← same]
      exact spells'
    · obtain ⟨u, s₂, joined, spells⟩ := runOn_join texts tag₁ (.ofChar c)
      exact ⟨u, s₂, joined, parts.intercalate_eq ▸ spells⟩
    · obtain ⟨made, s₂, counted⟩ := runOn_count .none tag tag₁ x (.ofChar c) s₁
      refine ⟨made, s₂, _, counted, countWithin_singleton x c, ?_⟩
      rw [← elim_limitOf, parts.length_eq, ← countWithin_singleton]
      rfl
    · exact not_mem_of_parts parts
  · intro r parts texts ne free
    obtain ⟨u, s₁, joined, tag', rfl⟩ := runOn_join texts tag₁ (.ofChar c)
    obtain ⟨r', s₂, run, texts'⟩ := runOn_split tag' tag₁ _ c s₁
    exact ⟨_, s₁, r', s₂, joined, run, splitOn_intercalate ne free ▸ texts'⟩

/-- One cut of `a,b,c` leaves two parts, and the texts `a`, the empty one and `b` are
what `a,,b` is cut into. -/
theorem split_join_agree_commas :
    (∃ r s₁ parts,
      (callMethod (.str 1 (.ofChars ['a', ',', 'b', ',', 'c'])) "split".toList
        ⟨[.str 2 (.ofChar ','), .int 3 1], ∅⟩).runOn (.start [] false) = (.ok (.list r), s₁) ∧
      s₁.heap.Texts r parts ∧ parts.length = 2) ∧
    ∃ s r, s.heap.Texts r [['a'], [], ['b']] ∧
      ∃ u s₁ r' s₂,
        (callMethod (.str 2 (.ofChar ',')) "join".toList (.single (.list r))).runOn s =
          (.ok u, s₁) ∧
        (callMethod u "split".toList (.single (.str 2 (.ofChar ',')))).runOn s₁ =
          (.ok (.list r'), s₂) ∧
        s₂.heap.Texts r' [['a'], [], ['b']] := by
  have agree := split_join_agree 1 2 3 4 (.ofChars ['a', ',', 'b', ',', 'c']) .empty ',' 1
  constructor
  · obtain ⟨r, s₁, parts, run, texts, -, -, ⟨_, _, n, -, rfl, length⟩, -⟩ :=
      (agree (.start [] false)).1
    exact ⟨r, s₁, parts, run, texts, length.trans (by decide)⟩
  · obtain ⟨r, s, -, texts⟩ := runOn_newTexts [['a'], [], ['b']] (.start [] false)
    exact ⟨s, r, texts, (agree s).2 r _ texts (List.cons_ne_nil _ _) (by decide)⟩

end ObjectModel.TextMethod
