import Mathlib.Data.List.Sort
import Mathlib.Data.List.TakeWhile
import ObjectModel.Proofs.Text.Method

/-!
# Splitting at blanks

The words of a text are its maximal stretches without blanks. Splitting gives them
in order; beyond a limit it gives what is left, from the next word on, in one piece.

Main statement: `splits_into_words`.
-/

namespace ObjectModel.Text

/-- A stretch of a text, with what comes before and after it. -/
structure Stretch where
  before : List Char
  body : List Char
  after : List Char

namespace Stretch

/-- The same stretch, with more text in front. -/
def shift (front : List Char) (r : Stretch) : Stretch := { r with before := front ++ r.before }

/-- The text from where the stretch starts. -/
def onward (r : Stretch) : List Char := r.body ++ r.after

@[simp] theorem body_shift (front : List Char) (r : Stretch) : (r.shift front).body = r.body := rfl

@[simp] theorem onward_shift (front : List Char) (r : Stretch) :
    (r.shift front).onward = r.onward := rfl

def Precedes (r r' : Stretch) : Prop := r.before.length < r'.before.length

instance : Std.Irrefl Precedes := ⟨fun r => Nat.lt_irrefl r.before.length⟩

instance : Std.Antisymm Precedes := ⟨fun _ _ h h' => absurd h (Nat.lt_asymm h')⟩

/-- A maximal stretch without blanks. -/
structure IsWord (cs : List Char) (r : Stretch) : Prop where
  whole : r.before ++ r.onward = cs
  body_ne : r.body ≠ []
  solid : ∀ c ∈ r.body, isBlank c = false
  opens : ∀ c ∈ r.before.getLast?, isBlank c = true
  closes : ∀ c ∈ r.after.head?, isBlank c = true

end Stretch

open Stretch

variable {cs gap body tail : List Char} {r : Stretch} {ws : List Stretch}

/-- The words of a text, in order. -/
structure Words (cs : List Char) (ws : List Stretch) : Prop where
  mem_iff : ∀ r, r ∈ ws ↔ r.IsWord cs
  ordered : ws.Pairwise Precedes

theorem Words.unique {us : List Stretch} (h : Words cs ws) (h' : Words cs us) : ws = us :=
  h.ordered.eq_of_mem_iff h'.ordered fun r => (h.mem_iff r).trans (h'.mem_iff r).symm

-- ---------------------------------------------------------------------------
-- The first word
-- ---------------------------------------------------------------------------

theorem takeWhile_append {p : Char → Bool} {xs ys : List Char} (all : ∀ c ∈ xs, p c = true)
    (stops : ∀ c ∈ ys.head?, p c = false) : (xs ++ ys).takeWhile p = xs := by
  rw [List.takeWhile_append_of_pos all]
  cases ys with
  | nil => rw [List.takeWhile_nil, List.append_nil]
  | cons y ys => rw [List.takeWhile_cons_of_neg (by simp [stops y rfl]), List.append_nil]

theorem dropWhile_append {p : Char → Bool} {xs ys : List Char} (all : ∀ c ∈ xs, p c = true)
    (stops : ∀ c ∈ ys.head?, p c = false) : (xs ++ ys).dropWhile p = ys := by
  rw [List.dropWhile_append_of_pos all]
  cases ys with
  | nil => rfl
  | cons y ys => rw [List.dropWhile_cons_of_neg (by simp [stops y rfl])]

/-- A text as its first word, the blanks before it, and what comes after it. -/
structure Starts (gap body tail : List Char) : Prop where
  blank : ∀ c ∈ gap, isBlank c = true
  body_ne : body ≠ []
  solid : ∀ c ∈ body, isBlank c = false
  closes : ∀ c ∈ tail.head?, isBlank c = true

/-- A word starts with a character that is not blank. -/
theorem Stretch.IsWord.head_onward (h : r.IsWord cs) :
    ∃ c ∈ r.onward.head?, isBlank c = false := by
  obtain ⟨c, rest, hb⟩ := List.exists_cons_of_ne_nil h.body_ne
  refine ⟨c, ?_, h.solid c (hb ▸ List.mem_cons_self ..)⟩
  rw [onward, hb]
  rfl

theorem Starts.isWord (h : Starts gap body tail) :
    (⟨gap, body, tail⟩ : Stretch).IsWord (gap ++ (body ++ tail)) where
  whole := rfl
  body_ne := h.body_ne
  solid := h.solid
  opens c hc := h.blank c (List.mem_of_getLast? hc)
  closes := h.closes

/-- A later word of what comes after the first one is a word of the text: there is a
blank between the two. -/
theorem Starts.shift_isWord (h : Starts gap body tail) {w : Stretch} (hw : w.IsWord tail) :
    (w.shift (gap ++ body)).IsWord (gap ++ (body ++ tail)) where
  whole := by
    rw [← hw.whole, shift, List.append_assoc, List.append_assoc]
    rfl
  body_ne := hw.body_ne
  solid := hw.solid
  opens c hc := by
    have apart : w.before ≠ [] := fun none => by
      obtain ⟨c, head, solid⟩ := hw.head_onward
      have whole := hw.whole
      rw [none, List.nil_append] at whole
      cases (h.closes c (whole ▸ head)).symm.trans solid
    rw [shift, List.getLast?_append_of_ne_nil _ apart] at hc
    exact hw.opens c hc
  closes := hw.closes

/-- No word starts within the blanks before the first word. -/
theorem Starts.exists_before (h : Starts gap body tail) (hr : r.IsWord (gap ++ (body ++ tail))) :
    ∃ front, r.before = gap ++ front ∧ front ++ r.onward = body ++ tail := by
  obtain ⟨more, hgap, onward⟩ | ⟨front, before, rest⟩ := List.append_eq_append_iff.1 hr.whole
  · cases more with
    | nil => exact ⟨[], by rw [hgap, List.append_nil, List.append_nil], onward⟩
    | cons d more =>
      obtain ⟨c, head, solid⟩ := hr.head_onward
      rw [onward] at head
      cases head
      have inside : d ∈ gap := hgap ▸ List.mem_append_right _ (List.mem_cons_self ..)
      cases (h.blank d inside).symm.trans solid
  · exact ⟨front, before, rest.symm⟩

/-- What starts a text and has no blanks ends at the first blank. -/
theorem eq_of_solid {body' tail' : List Char} (solid : ∀ c ∈ body, isBlank c = false)
    (closes : ∀ c ∈ tail.head?, isBlank c = true) (solid' : ∀ c ∈ body', isBlank c = false)
    (closes' : ∀ c ∈ tail'.head?, isBlank c = true) (same : body ++ tail = body' ++ tail') :
    body = body' ∧ tail = tail' := by
  have first {b t : List Char} (solid : ∀ c ∈ b, isBlank c = false)
      (closes : ∀ c ∈ t.head?, isBlank c = true) :
      (b ++ t).takeWhile (!isBlank ·) = b ∧ (b ++ t).dropWhile (!isBlank ·) = t :=
    have all (c : Char) (hc : c ∈ b) : (!isBlank c) = true := by rw [solid c hc]; rfl
    have stops (c : Char) (hc : c ∈ t.head?) : (!isBlank c) = false := by rw [closes c hc]; rfl
    ⟨takeWhile_append all stops, dropWhile_append all stops⟩
  obtain ⟨taken, dropped⟩ := first solid closes
  obtain ⟨taken', dropped'⟩ := first solid' closes'
  rw [same] at taken dropped
  exact ⟨taken.symm.trans taken', dropped.symm.trans dropped'⟩

/-- A word is the first one, or a word of what comes after it. -/
theorem Starts.eq_or_exists (h : Starts gap body tail) (hr : r.IsWord (gap ++ (body ++ tail))) :
    r = ⟨gap, body, tail⟩ ∨ ∃ w : Stretch, w.IsWord tail ∧ w.shift (gap ++ body) = r := by
  obtain ⟨front, before, rest⟩ := h.exists_before hr
  obtain ⟨_, body', after'⟩ := r
  obtain rfl : _ = gap ++ front := before
  obtain ⟨more, hbody, -⟩ | ⟨more, rfl, later⟩ := List.append_eq_append_iff.1 rest
  · -- A word that starts within the first one starts with it: no blank is before it otherwise.
    cases front using List.reverseRecOn with
    | nil =>
      obtain ⟨rfl, rfl⟩ := eq_of_solid hr.solid hr.closes h.solid h.closes rest
      rw [List.append_nil]
      exact .inl rfl
    | append_singleton front c =>
      have blank := hr.opens c (by simp)
      have solid := h.solid c (by simp [hbody])
      cases blank.symm.trans solid
  · refine .inr ⟨⟨more, body', after'⟩, ⟨later.symm, hr.body_ne, hr.solid, ?_, hr.closes⟩, ?_⟩
    · intro c hc
      refine hr.opens c ?_
      simp [List.getLast?_append, Option.mem_def.1 hc]
    · simp [shift]

theorem words_of_blank (blank : ∀ c ∈ gap, isBlank c = true) : Words gap [] where
  mem_iff r := by
    refine iff_of_false List.not_mem_nil fun hr => ?_
    obtain ⟨c, head, solid⟩ := hr.head_onward
    have inside : c ∈ gap := hr.whole ▸ List.mem_append_right _ (List.mem_of_mem_head? head)
    cases (blank c inside).symm.trans solid
  ordered := .nil

theorem Starts.words (h : Starts gap body tail) (rest : Words tail ws) :
    Words (gap ++ (body ++ tail)) (⟨gap, body, tail⟩ :: ws.map (shift (gap ++ body))) where
  mem_iff r := by
    rw [List.mem_cons, List.mem_map]
    constructor
    · rintro (rfl | ⟨w, hw, rfl⟩)
      · exact h.isWord
      · exact h.shift_isWord ((rest.mem_iff w).1 hw)
    · intro hr
      refine (h.eq_or_exists hr).imp_right ?_
      rintro ⟨w, hw, rfl⟩
      exact ⟨w, (rest.mem_iff w).2 hw, rfl⟩
  ordered := by
    refine .cons (List.forall_mem_map.2 fun w _ => ?_) ?_
    · have := List.length_pos_of_ne_nil h.body_ne
      simp only [Precedes, shift, List.length_append]
      omega
    · refine List.pairwise_map.2 (rest.ordered.imp fun {w w'} before => ?_)
      simp only [Precedes, shift, List.length_append] at before ⊢
      omega

/-- A text is blank or starts with a word. -/
theorem blank_or_starts (cs : List Char) : (∀ c ∈ cs, isBlank c = true) ∨
    ∃ gap body tail, cs = gap ++ (body ++ tail) ∧ Starts gap body tail := by
  induction cs with
  | nil => exact .inl (List.forall_mem_nil _)
  | cons c cs ih =>
    cases hc : isBlank c with
    | true =>
      obtain blank | ⟨gap, body, tail, rfl, starts⟩ := ih
      · exact .inl (List.forall_mem_cons.2 ⟨hc, blank⟩)
      · exact .inr ⟨c :: gap, body, tail, rfl,
          { starts with blank := List.forall_mem_cons.2 ⟨hc, starts.blank⟩ }⟩
    | false =>
      refine .inr ⟨[], (c :: cs).takeWhile (!isBlank ·), (c :: cs).dropWhile (!isBlank ·),
        List.takeWhile_append_dropWhile.symm, List.forall_mem_nil _, ?_, ?_, ?_⟩
      · simp [hc]
      · intro d hd
        simpa using List.all_eq_true.1 List.all_takeWhile d hd
      · intro d hd
        have stops := List.head?_dropWhile_not (!isBlank ·) (c :: cs)
        rw [Option.mem_def.1 hd] at stops
        simpa using stops

-- ---------------------------------------------------------------------------
-- Splitting
-- ---------------------------------------------------------------------------

theorem splitBlank_of_blank (blank : ∀ c ∈ gap, isBlank c = true) (limit : Option Nat) :
    splitBlank limit gap = [] := by
  have trimmed : trimStart isBlank gap = [] := List.dropWhile_eq_nil_iff.2 blank
  rw [splitBlank]
  split
  · rfl
  · next some => cases trimmed.symm.trans some

/-- The first word is trimmed free; a limit that is used up leaves it with all that
comes after it. -/
theorem Starts.splitBlank_eq (h : Starts gap body tail) (limit : Option Nat) :
    splitBlank limit (gap ++ (body ++ tail)) =
      if limit = some 0 then [body ++ tail] else body :: splitBlank (spend limit) tail := by
  have solid (c : Char) (hc : c ∈ body) : (!isBlank c) = true := by rw [h.solid c hc]; rfl
  have stops (c : Char) (hc : c ∈ tail.head?) : (!isBlank c) = false := by rw [h.closes c hc]; rfl
  have trimmed : trimStart isBlank (gap ++ (body ++ tail)) = body ++ tail := by
    refine dropWhile_append h.blank fun c hc => ?_
    rw [List.head?_append_of_ne_nil _ h.body_ne] at hc
    exact h.solid c (List.mem_of_mem_head? hc)
  rw [splitBlank]
  split
  · next none => exact absurd (List.append_eq_nil_iff.1 (trimmed.symm.trans none)).1 h.body_ne
  · next some =>
    have same := some.symm.trans trimmed
    simp only [same, takeWhile_append solid stops, dropWhile_append solid stops]

/-- The words, but that beyond a limit the text from the next word on is left. -/
def partsOf (limit : Option Nat) (ws : List Stretch) : List (List Char) :=
  match limit with
  | none => ws.map Stretch.body
  | some n => (ws.take n).map Stretch.body ++ (ws[n]?.map Stretch.onward).toList

theorem partsOf_map_shift (front : List Char) (limit : Option Nat) (ws : List Stretch) :
    partsOf limit (ws.map (shift front)) = partsOf limit ws := by
  cases limit <;> simp [partsOf, Function.comp_def, ← List.map_take]

theorem partsOf_cons (limit : Option Nat) (r : Stretch) (ws : List Stretch) :
    partsOf limit (r :: ws) =
      if limit = some 0 then [r.onward] else r.body :: partsOf (spend limit) ws := by
  obtain _ | _ | n := limit <;> rfl

/-- There is one list of the words of a text, and splitting gives its parts. -/
theorem exists_words (cs : List Char) :
    ∃ ws, Words cs ws ∧ ∀ limit, splitBlank limit cs = partsOf limit ws := by
  -- The rest of the text after its first word is shorter.
  induction h : cs.length using Nat.strong_induction_on generalizing cs with
  | _ n ih =>
    subst h
    obtain blank | ⟨gap, body, tail, rfl, starts⟩ := blank_or_starts cs
    · refine ⟨[], words_of_blank blank, fun limit => ?_⟩
      rw [splitBlank_of_blank blank]
      cases limit <;> simp [partsOf]
    · have shorter : tail.length < (gap ++ (body ++ tail)).length := by
        have := List.length_pos_of_ne_nil starts.body_ne
        simp only [List.length_append]
        omega
      obtain ⟨ws, words, parts⟩ := ih _ shorter tail rfl
      refine ⟨_, starts.words words, fun limit => ?_⟩
      rw [starts.splitBlank_eq, parts, partsOf_cons, partsOf_map_shift]
      rfl

example : splitBlank (some 1) [' ', 'a', ' ', 'b', ' '] = [['a'], ['b', ' ']] := by cbv

/-- No part is empty or starts with a blank. -/
theorem head_of_mem_partsOf (words : Words cs ws) {limit : Option Nat} {part : List Char}
    (mem : part ∈ partsOf limit ws) : ∃ c ∈ part.head?, isBlank c = false := by
  have body (w : Stretch) (hw : w ∈ ws) : ∃ c ∈ w.body.head?, isBlank c = false := by
    have word := (words.mem_iff w).1 hw
    obtain ⟨c, hc⟩ := Option.isSome_iff_exists.1 (List.isSome_head?.2 word.body_ne)
    exact ⟨c, hc, word.solid c (List.mem_of_mem_head? hc)⟩
  cases limit with
  | none =>
    obtain ⟨w, hw, rfl⟩ := List.mem_map.1 mem
    exact body w hw
  | some n =>
    obtain early | last := List.mem_append.1 mem
    · obtain ⟨w, hw, rfl⟩ := List.mem_map.1 early
      exact body w (List.mem_of_mem_take hw)
    · obtain ⟨w, hw, rfl⟩ := Option.map_eq_some_iff.1 (Option.mem_toList.1 last)
      exact ((words.mem_iff w).1 (List.mem_of_getElem? hw)).head_onward

end ObjectModel.Text

namespace ObjectModel.TextMethod

open ObjectModel.Action ObjectModel.Text

theorem partsOf_limitOf (m : Int64) (ws : List Stretch) :
    (m < 0 ∨ (ws.length : Int) ≤ m.toInt) ∧ partsOf (limitOf m) ws = ws.map Stretch.body ∨
    ∃ (n : Nat) (more : n < ws.length), m.toInt = n ∧
      partsOf (limitOf m) ws = (ws.take n).map Stretch.body ++ [ws[n].onward] := by
  rw [limitOf]
  split
  · next negative => exact .inl ⟨.inl negative, rfl⟩
  · next positive =>
    have positive : 0 ≤ m.toInt := Int64.le_iff_toInt_le.1 (Int64.not_lt.1 positive)
    obtain ⟨n, whole⟩ := Int.eq_ofNat_of_zero_le positive
    rw [whole, Int.toNat_natCast]
    by_cases more : n < ws.length
    · exact .inr ⟨n, more, rfl, by simp [partsOf, more]⟩
    · have all : ws.length ≤ n := Nat.not_lt.1 more
      refine .inl ⟨.inr (Int.ofNat_le.2 all), ?_⟩
      rw [partsOf, List.take_of_length_le all, List.getElem?_eq_none all]
      exact List.append_nil _

/-- Splitting a text at its blanks ends with a new list: of all its words, or as many as
the limit says and the text from the next word on, just as it is. -/
theorem splits_into_words (tag tag' : Tag) (t : Text) (m : Int64) (s : Session) :
    ∃ ws, Words t.chars ws ∧ (∀ us, Words t.chars us → us = ws) ∧
      ∃ r s' parts, (callMethod (.str tag t) "split".toList ⟨[.none, .int tag' m], ∅⟩).runOn s =
          (.ok (.list r), s') ∧
        s'.heap.Texts r parts ∧
        ((m < 0 ∨ (ws.length : Int) ≤ m.toInt) ∧ parts = ws.map Stretch.body ∨
          ∃ (n : Nat) (more : n < ws.length), m.toInt = n ∧
            parts = (ws.take n).map Stretch.body ++ [ws[n].onward]) ∧
        ∀ part ∈ parts, ∃ c ∈ part.head?, isBlank c = false := by
  obtain ⟨ws, words, splits⟩ := exists_words t.chars
  refine ⟨ws, words, fun us more => more.unique words, ?_⟩
  obtain ⟨r, s', run, texts⟩ := runOn_split_blank tag tag' t m s
  rw [splits] at texts
  exact ⟨r, s', _, run, texts, partsOf_limitOf m ws, fun _ => head_of_mem_partsOf words⟩

end ObjectModel.TextMethod
