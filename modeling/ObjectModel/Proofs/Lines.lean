import ObjectModel.Proofs.Newlines

/-!
# Lines

A text is cut after each of its newlines. The lines are the text, and they can be
cut before the newlines are folded or after: a `\r\n` lies within one line, and it
makes no difference for bytes, as no character but `\n` has the byte of `\n`.

Main statements: `partition_lines`, `length_lines` and `lines_translate`.
-/

namespace ObjectModel.File

open Utf8

/-- The lines of a text, each with the newline that ends it. -/
def lines : List Char → List (List Char)
  | [] => []
  | c :: cs =>
    if c = '\n' then [c] :: lines cs
    else
      match lines cs with
      | [] => [[c]]
      | line :: more => (c :: line) :: more

/-- The text that a handle shows, with every `\r\n` as `\n` if it folds newlines. -/
def translate (folds : Bool) (cs : List Char) : List Char :=
  if folds then foldNewlines cs else cs

/-- Pieces of a text that are lines of it. -/
structure Partition (text : List Char) (pieces : List (List Char)) : Prop where
  flatten_eq : pieces.flatten = text
  ne_nil : ∀ piece ∈ pieces, piece ≠ []
  /-- every piece but the last ends with a newline, -/
  ended : ∀ piece ∈ pieces.dropLast, piece.getLast? = some '\n'
  /-- and no piece has one before its end -/
  single : ∀ piece ∈ pieces, '\n' ∉ piece.dropLast

variable {cs front back : List Char} {pieces : List (List Char)}

-- ---------------------------------------------------------------------------
-- Cutting
-- ---------------------------------------------------------------------------

@[simp] theorem lines_nil : lines [] = [] := rfl

theorem lines_append (clean : '\n' ∉ front) :
    lines (front ++ '\n' :: back) = (front ++ ['\n']) :: lines back := by
  induction front with
  | nil => rfl
  | cons c front ih =>
    rw [List.cons_append, lines, if_neg (List.ne_of_not_mem_cons clean).symm,
      ih (List.not_mem_of_not_mem_cons clean)]
    rfl

theorem lines_of_not_mem (more : cs ≠ []) (clean : '\n' ∉ cs) : lines cs = [cs] := by
  induction cs with
  | nil => exact absurd rfl more
  | cons c cs ih =>
    rw [lines, if_neg (List.ne_of_not_mem_cons clean).symm]
    cases cs with
    | nil => rfl
    | cons d cs => rw [ih (List.cons_ne_nil d cs) (List.not_mem_of_not_mem_cons clean)]

/-- Line by line, to the end of the text. -/
@[elab_as_elim] theorem lines_induction {motive : List Char → Prop} (nil : motive [])
    (ended : ∀ front back, '\n' ∉ front → motive back → motive (front ++ '\n' :: back))
    (last : ∀ cs, cs ≠ [] → '\n' ∉ cs → motive cs) (cs : List Char) : motive cs := by
  by_cases newline : '\n' ∈ cs
  · obtain ⟨front, back, split, clean⟩ := List.eq_append_cons_of_mem newline
    exact split ▸ ended front back clean (lines_induction nil ended last back)
  · by_cases more : cs = []
    · exact more ▸ nil
    · exact last cs more newline
termination_by cs.length
decreasing_by
  rw [split, List.length_append, List.length_cons]
  omega

-- ---------------------------------------------------------------------------
-- The lines are the text
-- ---------------------------------------------------------------------------

theorem Partition.ended_append (h : Partition back pieces) (clean : '\n' ∉ front) :
    Partition (front ++ '\n' :: back) ((front ++ ['\n']) :: pieces) where
  flatten_eq := by
    rw [List.flatten_cons, h.flatten_eq, List.append_assoc, List.singleton_append]
  ne_nil piece hp := by
    rcases List.mem_cons.1 hp with rfl | later
    · exact List.append_ne_nil_of_right_ne_nil _ (List.cons_ne_nil _ _)
    · exact h.ne_nil piece later
  ended piece hp := by
    cases pieces with
    | nil => cases hp
    | cons next pieces =>
      rcases List.mem_cons.1 hp with rfl | later
      · exact List.getLast?_concat
      · exact h.ended piece later
  single piece hp := by
    rcases List.mem_cons.1 hp with rfl | later
    · rwa [List.dropLast_concat]
    · exact h.single piece later

theorem Partition.last (more : cs ≠ []) (clean : '\n' ∉ cs) : Partition cs [cs] where
  flatten_eq := List.flatten_singleton
  ne_nil piece hp := List.mem_singleton.1 hp ▸ more
  ended piece hp := by cases hp
  single piece hp newline := clean (List.mem_singleton.1 hp ▸ List.dropLast_subset _ newline)

/-- Cutting a text into its lines loses nothing and cuts where it should. -/
theorem partition_lines (cs : List Char) : Partition cs (lines cs) := by
  induction cs using lines_induction with
  | nil => exact ⟨rfl, nofun, nofun, nofun⟩
  | ended front back clean ih => exact lines_append clean ▸ ih.ended_append clean
  | last cs more clean => exact lines_of_not_mem more clean ▸ .last more clean

/-- One line for each newline, and one for what comes after the last of them. -/
theorem length_lines (cs : List Char) : (lines cs).length =
    cs.count '\n' + if cs ≠ [] ∧ cs.getLast? ≠ some '\n' then 1 else 0 := by
  induction cs using lines_induction with
  | nil => rfl
  | ended front back clean ih =>
    have newlines : (front ++ '\n' :: back).count '\n' = back.count '\n' + 1 := by
      rw [List.count_append, List.count_eq_zero_of_not_mem clean, List.count_cons_self,
        Nat.zero_add]
    have lasts : (front ++ '\n' :: back).getLast? = some (back.getLast?.getD '\n') := by
      rw [List.getLast?_append, List.getLast?_cons, Option.some_or]
    rw [lines_append clean, List.length_cons, ih, newlines, lasts]
    cases back with
    | nil => simp
    | cons c back =>
      rw [List.getLast?_cons]
      simp
      omega
  | last cs more clean =>
    have unended : cs.getLast? ≠ some '\n' := fun h => clean (List.mem_of_getLast? h)
    rw [lines_of_not_mem more clean, List.count_eq_zero_of_not_mem clean, if_pos ⟨more, unended⟩]
    rfl

-- ---------------------------------------------------------------------------
-- Lines whose newlines are folded
-- ---------------------------------------------------------------------------

theorem foldNewlines_of_not_mem (clean : '\n' ∉ cs) : foldNewlines cs = cs := by
  induction cs with
  | nil => rfl
  | cons c cs ih =>
    have later := List.not_mem_of_not_mem_cons clean
    have whole : ¬ Splits [c] cs := fun split => later (List.mem_of_head? split.2)
    rw [foldNewlines_cons whole, ih later]

/-- A line stays one. -/
theorem exists_foldNewlines_concat (clean : '\n' ∉ front) :
    ∃ line, '\n' ∉ line ∧ foldNewlines (front ++ ['\n']) = line ++ ['\n'] := by
  by_cases split : Splits front ['\n']
  · obtain ⟨before, after, rfl, -⟩ := split.exists_eq
    have outside : '\n' ∉ before := fun h => clean (List.mem_append_left _ h)
    have apart : ¬ Splits before ['\r', '\n'] := fun split => by cases split.2
    refine ⟨before, outside, ?_⟩
    rw [List.append_assoc, List.singleton_append, foldNewlines_append apart,
      foldNewlines_of_not_mem outside]
    rfl
  · refine ⟨front, clean, ?_⟩
    rw [foldNewlines_append split, foldNewlines_of_not_mem clean]
    rfl

/-- Folding the lines is folding the text: no `\r\n` goes over the end of a line. -/
theorem lines_foldNewlines (cs : List Char) :
    lines (foldNewlines cs) = (lines cs).map foldNewlines := by
  induction cs using lines_induction with
  | nil => rfl
  | ended front back clean ih =>
    obtain ⟨line, clean', folded⟩ := exists_foldNewlines_concat clean
    have whole : ¬ Splits (front ++ ['\n']) back := fun split => by
      have last := split.1
      rw [List.getLast?_concat] at last
      cases last
    have parts : foldNewlines (front ++ '\n' :: back) = line ++ '\n' :: foldNewlines back := by
      rw [← List.singleton_append, ← List.append_assoc, foldNewlines_append whole, folded,
        List.append_assoc, List.singleton_append]
    rw [parts, lines_append clean', lines_append clean, List.map_cons, ih, folded]
  | last cs more clean =>
    rw [foldNewlines_of_not_mem clean, lines_of_not_mem more clean, List.map_singleton,
      foldNewlines_of_not_mem clean]

theorem lines_translate (folds : Bool) (cs : List Char) :
    lines (translate folds cs) = (lines cs).map (translate folds) := by
  cases folds with
  | true => exact lines_foldNewlines cs
  | false => exact (List.map_id _).symm

/-- Folding empties no line. -/
theorem translate_eq_nil (folds : Bool) : translate folds cs = [] ↔ cs = [] := by
  cases folds with
  | true => cases cs using foldNewlines.fun_cases <;> simp [translate, foldNewlines]
  | false => rfl

-- ---------------------------------------------------------------------------
-- Bytes
-- ---------------------------------------------------------------------------

theorem newline_mem_encode : 0x0A ∈ encode cs ↔ '\n' ∈ cs := by
  constructor
  · intro h
    obtain ⟨front, rest, split, -⟩ := List.eq_append_cons_of_mem h
    obtain ⟨before, after, rfl, -⟩ :=
      exists_of_encode_eq_cons (by decide : (0x0A : UInt8).toNat < 0x80) split
    exact List.mem_append_right _ (List.mem_cons_self ..)
  · intro h
    obtain ⟨before, after, rfl, -⟩ := List.eq_append_cons_of_mem h
    rw [encode_append]
    exact List.mem_append_right _ (List.mem_cons_self ..)

/-- The first line of a text is the first of its bytes, and the others come after it. -/
theorem exists_line_encode (cs : List Char) :
    ∃ back, Line (encode cs) (encode ((lines cs).headD [])) (encode back) ∧
      lines back = (lines cs).tail := by
  have unended {cs : List Char} (clean : '\n' ∉ cs) : Line (encode cs) (encode cs) (encode []) :=
    .last fun newline => clean (newline_mem_encode.1 newline)
  induction cs using lines_induction with
  | nil => exact ⟨[], unended List.not_mem_nil, rfl⟩
  | ended front back clean =>
    have bytes : Line (encode front ++ 0x0A :: encode back) (encode front ++ [0x0A])
        (encode back) := .ended fun newline => clean (newline_mem_encode.1 newline)
    refine ⟨back, ?_, ?_⟩
    · rw [lines_append clean, List.headD_cons, encode_append, encode_append]
      exact bytes
    · rw [lines_append clean, List.tail_cons]
  | last cs more clean =>
    rw [lines_of_not_mem more clean]
    exact ⟨[], unended clean, rfl⟩

end ObjectModel.File
