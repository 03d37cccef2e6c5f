import Mathlib.Tactic.IntervalCases
import ObjectModel.Numeral
import ObjectModel.Proofs.Text.Ascii

/-!
# Reading numerals

A numeral is a sign or none, a mark that names a radix or none, and digits of
the radix with single underscores between them. It is read as the number that it
denotes, if that is a word. No digit of a radix is the letter that marks it, so
digits alone are never taken for a mark.

Main statements: `parse_of_spells`, and `parse_of_unsigned` for a word behind its
sign.
-/

namespace ObjectModel.Numeral

variable {radix n : Nat} {cs : List Char}

/-- The number that digits of a radix denote, the last digit being the lowest. -/
inductive Denotes (radix : Nat) : List Char → Nat → Prop
  | one {c : Char} {d : Nat} (hc : digit? c = some d) (hd : d < radix) : Denotes radix [c] d
  | snoc {cs : List Char} {n : Nat} {c : Char} {d : Nat} (h : Denotes radix cs n)
    (hc : digit? c = some d) (hd : d < radix) : Denotes radix (cs ++ [c]) (n * radix + d)

/-- Digits of a radix with single underscores between them, and the number that
they denote. -/
inductive Grouped (radix : Nat) : List Char → Nat → Prop
  | one {c : Char} {d : Nat} (hc : digit? c = some d) (hd : d < radix) : Grouped radix [c] d
  | digit {cs : List Char} {n : Nat} {c : Char} {d : Nat} (h : Grouped radix cs n)
    (hc : digit? c = some d) (hd : d < radix) : Grouped radix (cs ++ [c]) (n * radix + d)
  | underscore {cs : List Char} {n : Nat} {c : Char} {d : Nat} (h : Grouped radix cs n)
    (hc : digit? c = some d) (hd : d < radix) : Grouped radix (cs ++ ['_', c]) (n * radix + d)

/-- The digits of a numeral. Behind a mark an underscore may come first. -/
inductive Body (radix : Nat) : Bool → List Char → Nat → Prop
  | digits {marked : Bool} {cs : List Char} {n : Nat} (h : Grouped radix cs n) :
    Body radix marked cs n
  | underscore {cs : List Char} {n : Nat} (h : Grouped radix cs n) : Body radix true ('_' :: cs) n

/-- The letter behind a zero that marks a radix, in either case. -/
inductive Marks : Nat → Char → Prop
  | hex {c : Char} (h : c = 'x' ∨ c = 'X') : Marks 16 c
  | octal {c : Char} (h : c = 'o' ∨ c = 'O') : Marks 8 c
  | binary {c : Char} (h : c = 'b' ∨ c = 'B') : Marks 2 c

/-- A numeral without a sign. A base that has a mark may be marked. Base zero
takes the radix of the mark; without one it is ten, and then nothing but zeros
and underscores may follow a zero that leads. -/
inductive Unsigned : Nat → List Char → Nat → Prop
  | plain {base : Nat} {cs : List Char} {n : Nat} (positive : base ≠ 0) (h : Grouped base cs n) :
    Unsigned base cs n
  | marked {base radix : Nat} {c : Char} {cs : List Char} {n : Nat} (mark : Marks radix c)
    (allowed : base = radix ∨ base = 0) (h : Body radix true cs n) :
    Unsigned base ('0' :: c :: cs) n
  | auto {cs : List Char} {n : Nat} (h : Grouped 10 cs n)
    (zeros : cs.head? = some '0' → ∀ c ∈ cs, c = '0' ∨ c = '_') : Unsigned 0 cs n

/-- A numeral in a base, and the number that it denotes. -/
inductive Spells (base : Nat) : List Char → Int → Prop
  | plain {cs : List Char} {n : Nat} (h : Unsigned base cs n) : Spells base cs n
  | plus {cs : List Char} {n : Nat} (h : Unsigned base cs n) : Spells base ('+' :: cs) n
  | minus {cs : List Char} {n : Nat} (h : Unsigned base cs n) : Spells base ('-' :: cs) (-n)

-- ---------------------------------------------------------------------------
-- Digits
-- ---------------------------------------------------------------------------

theorem digit?_eq (c : Char) : digit? c =
    if 48 ≤ c.toNat ∧ c.toNat ≤ 57 then some (c.toNat - 48)
    else if 97 ≤ c.toNat ∧ c.toNat ≤ 122 then some (c.toNat - 87)
    else if 65 ≤ c.toNat ∧ c.toNat ≤ 90 then some (c.toNat - 55)
    else none := rfl

theorem digit?_toLower (c : Char) : digit? c.toLower = digit? c := by
  rw [digit?_eq, digit?_eq, Text.toNat_toLower]
  grind

theorem digit?_toUpper (c : Char) : digit? c.toUpper = digit? c := by
  rw [digit?_eq, digit?_eq, Text.toNat_toUpper]
  grind

theorem digit?_digitChar {d : Nat} (h : d < 16) : digit? d.digitChar = some d := by
  interval_cases d <;> rfl

theorem visible_of_digit {c : Char} {d : Nat} (h : digit? c = some d) :
    0x30 ≤ c.toNat ∧ c.toNat ≤ 0x7A := by
  rw [digit?_eq] at h
  grind

-- ---------------------------------------------------------------------------
-- What denotes a number
-- ---------------------------------------------------------------------------

theorem Denotes.digit_of_mem (h : Denotes radix cs n) {c : Char} (hc : c ∈ cs) :
    ∃ d, digit? c = some d ∧ d < radix := by
  induction h with
  | one hd hlt =>
    cases List.mem_singleton.1 hc
    exact ⟨_, hd, hlt⟩
  | snoc _ hd hlt ih =>
    rcases List.mem_append.1 hc with hc | hc
    · exact ih hc
    · cases List.mem_singleton.1 hc
      exact ⟨_, hd, hlt⟩

/-- A leading zero does not change the number. -/
theorem Denotes.zero_cons (h : Denotes radix cs n) : Denotes radix ('0' :: cs) n := by
  have first {d : Nat} (hd : d < radix) : Denotes radix ['0'] 0 := .one rfl (by omega)
  induction h with
  | one hc hd => simpa using (first hd).snoc hc hd
  | snoc _ hc hd ih => exact ih.snoc hc hd

theorem Denotes.zeros_append (h : Denotes radix cs n) (k : Nat) :
    Denotes radix (List.replicate k '0' ++ cs) n := by
  induction k with
  | zero => exact h
  | succ k ih => exact ih.zero_cons

theorem Denotes.map_toUpper (h : Denotes radix cs n) : Denotes radix (cs.map Char.toUpper) n := by
  induction h with
  | one hc hd => exact .one ((digit?_toUpper _).trans hc) hd
  | snoc _ hc hd ih =>
    rw [List.map_append]
    exact ih.snoc ((digit?_toUpper _).trans hc) hd

/-- The digits of a number denote it. -/
theorem denotes_digits (least : 1 < radix) (most : radix ≤ 16) (n : Nat) :
    Denotes radix (digits radix n) n := by
  induction n using Nat.strongRecOn with
  | ind n ih =>
    rcases Nat.lt_or_ge n radix with hn | hn
    · rw [digits, Nat.toDigits_of_lt_base hn]
      exact .one (digit?_digitChar (by omega)) hn
    · have last : n % radix < radix := Nat.mod_lt _ (by omega)
      have front := ih (n / radix) (Nat.div_lt_self (by omega) least)
      have whole := front.snoc (digit?_digitChar (Nat.lt_of_lt_of_le last most)) last
      rwa [Nat.mul_comm, Nat.div_add_mod, digits, ← Nat.toDigits_of_base_le least hn] at whole

theorem Denotes.grouped (h : Denotes radix cs n) : Grouped radix cs n := by
  induction h with
  | one hc hd => exact .one hc hd
  | snoc _ hc hd ih => exact ih.digit hc hd

-- ---------------------------------------------------------------------------
-- What a numeral is made of
-- ---------------------------------------------------------------------------

theorem Grouped.digit_of_mem (h : Grouped radix cs n) {c : Char} (hc : c ∈ cs) :
    c = '_' ∨ ∃ d, digit? c = some d ∧ d < radix := by
  induction h with
  | one hd hlt =>
    cases List.mem_singleton.1 hc
    exact .inr ⟨_, hd, hlt⟩
  | digit _ hd hlt ih =>
    rcases List.mem_append.1 hc with hc | hc
    · exact ih hc
    · cases List.mem_singleton.1 hc
      exact .inr ⟨_, hd, hlt⟩
  | underscore _ hd hlt ih =>
    rcases List.mem_append.1 hc with hc | hc
    · exact ih hc
    · simp only [List.mem_cons, List.not_mem_nil, or_false] at hc
      rcases hc with rfl | rfl
      · exact .inl rfl
      · exact .inr ⟨_, hd, hlt⟩

/-- A digit comes first. -/
theorem Grouped.exists_cons (h : Grouped radix cs n) :
    ∃ c d rest, cs = c :: rest ∧ digit? c = some d ∧ d < radix := by
  induction h with
  | one hc hd => exact ⟨_, _, _, rfl, hc, hd⟩
  | digit _ _ _ ih | underscore _ _ _ ih =>
    obtain ⟨c, d, rest, rfl, hc, hd⟩ := ih
    exact ⟨c, d, _, rfl, hc, hd⟩

theorem Grouped.visible (h : Grouped radix cs n) : ∀ c ∈ cs, 0x30 ≤ c.toNat ∧ c.toNat ≤ 0x7A := by
  intro c hc
  rcases h.digit_of_mem hc with rfl | ⟨d, hd, -⟩
  · decide
  · exact visible_of_digit hd

theorem Body.visible {marked : Bool} (h : Body radix marked cs n) :
    ∀ c ∈ cs, 0x30 ≤ c.toNat ∧ c.toNat ≤ 0x7A := by
  cases h with
  | digits h => exact h.visible
  | underscore h => exact List.forall_mem_cons.2 ⟨by decide, h.visible⟩

theorem Marks.visible {c : Char} (h : Marks radix c) : 0x30 ≤ c.toNat ∧ c.toNat ≤ 0x7A := by
  cases h with
  | hex h | octal h | binary h => rcases h with rfl | rfl <;> decide

theorem Unsigned.visible {base : Nat} (h : Unsigned base cs n) :
    ∀ c ∈ cs, 0x30 ≤ c.toNat ∧ c.toNat ≤ 0x7A := by
  cases h with
  | plain _ h => exact h.visible
  | marked mark _ h =>
    exact List.forall_mem_cons.2 ⟨by decide, List.forall_mem_cons.2 ⟨mark.visible, h.visible⟩⟩
  | auto h _ => exact h.visible

-- ---------------------------------------------------------------------------
-- The loop over the digits
-- ---------------------------------------------------------------------------

theorem magnitudeFrom?_digit_cons {c : Char} {d : Nat} (hc : digit? c = some d) (hd : d < radix)
    (place : Place) (acc : Nat) (cs : List Char) :
    magnitudeFrom? radix place acc (c :: cs) =
      magnitudeFrom? radix .digit (min (acc * radix + d) ceiling) cs := by
  have solid : c ≠ '_' := by
    rintro rfl
    cases hc
  cases place <;> simp [magnitudeFrom?, solid, hc, hd]

theorem magnitudeFrom?_underscore_cons {place : Place}
    (admits : place = .digit ∨ place = .start true) (acc : Nat) (cs : List Char) :
    magnitudeFrom? radix place acc ('_' :: cs) = magnitudeFrom? radix .underscore acc cs := by
  rcases admits with rfl | rfl <;> simp [magnitudeFrom?]

/-- What the loop reads starts with an underscore that its place admits, or with
a digit. -/
theorem of_magnitudeFrom?_cons {place : Place} {acc m : Nat} {c : Char}
    (h : magnitudeFrom? radix place acc (c :: cs) = some m) :
    c = '_' ∧ (place = .digit ∨ place = .start true) ∨ ∃ d, digit? c = some d ∧ d < radix := by
  by_cases underscore : c = '_'
  · refine .inl ⟨underscore, ?_⟩
    cases place with
    | digit => exact .inl rfl
    | start marked => cases marked <;> simp_all [magnitudeFrom?]
    | underscore => simp [magnitudeFrom?, underscore] at h
  · refine .inr ?_
    cases value : digit? c with
    | none => cases place <;> simp [magnitudeFrom?, underscore, value] at h
    | some d =>
      by_cases below : d < radix
      · exact ⟨d, rfl, below⟩
      · cases place <;> simp [magnitudeFrom?, underscore, value, below] at h

/-- What follows is read on from what has been read. -/
theorem magnitudeFrom?_append {place : Place} {acc m : Nat}
    (h : magnitudeFrom? radix place acc cs = some m) (rest : List Char) :
    magnitudeFrom? radix place acc (cs ++ rest) = magnitudeFrom? radix .digit m rest := by
  induction cs generalizing place acc with
  | nil =>
    cases place with
    | digit => cases h; rfl
    | _ => cases h
  | cons c cs ih =>
    rw [List.cons_append]
    rcases of_magnitudeFrom?_cons h with ⟨rfl, admits⟩ | ⟨d, hc, hd⟩
    · rw [magnitudeFrom?_underscore_cons admits] at h ⊢
      exact ih h
    · rw [magnitudeFrom?_digit_cons hc hd] at h ⊢
      exact ih h

/-- A number that has reached the ceiling stays there. -/
theorem min_ceiling_step {d : Nat} (hd : d < radix) (m : Nat) :
    min (min m ceiling * radix + d) ceiling = min (m * radix + d) ceiling := by
  rcases Nat.le_total m ceiling with hm | hm
  · rw [Nat.min_eq_left hm]
  · have grown {k : Nat} (hk : ceiling ≤ k) : ceiling ≤ k * radix + d :=
      Nat.le_trans (Nat.le_trans hk (Nat.le_mul_of_pos_right _ (by omega))) (Nat.le_add_right ..)
    rw [Nat.min_eq_right hm, Nat.min_eq_right (grown (Nat.le_refl _)), Nat.min_eq_right (grown hm)]

theorem magnitude?_of_grouped (h : Grouped radix cs n) (marked : Bool) :
    magnitude? radix marked cs = some (min n ceiling) := by
  induction h with
  | one hc hd =>
    rw [magnitude?, magnitudeFrom?_digit_cons hc hd, Nat.zero_mul, Nat.zero_add, magnitudeFrom?]
  | digit _ hc hd ih =>
    rw [magnitude?, magnitudeFrom?_append ih, magnitudeFrom?_digit_cons hc hd, magnitudeFrom?,
      min_ceiling_step hd]
  | underscore _ hc hd ih =>
    rw [magnitude?, magnitudeFrom?_append ih, magnitudeFrom?_underscore_cons (.inl rfl),
      magnitudeFrom?_digit_cons hc hd, magnitudeFrom?, min_ceiling_step hd]

theorem magnitude?_of_body {marked : Bool} (h : Body radix marked cs n) :
    magnitude? radix marked cs = some (min n ceiling) := by
  cases h with
  | digits h => exact magnitude?_of_grouped h marked
  | underscore h =>
    have read := magnitude?_of_grouped h true
    obtain ⟨c, d, rest, rfl, hc, hd⟩ := h.exists_cons
    rw [magnitude?, magnitudeFrom?_digit_cons hc hd] at read
    rw [magnitude?, magnitudeFrom?_underscore_cons (.inr rfl), magnitudeFrom?_digit_cons hc hd, read]

-- ---------------------------------------------------------------------------
-- Marks
-- ---------------------------------------------------------------------------

/-- Digits hold no mark whose letter is not a digit of the radix. -/
theorem dropMark?_of_grouped {letter : Char} (h : Grouped radix cs n) (solid : letter ≠ '_')
    (beyond : ∀ d, digit? letter = some d → radix ≤ d) : dropMark? letter cs = none := by
  rw [dropMark?.eq_def]
  split
  · next c rest =>
    rw [if_neg]
    rintro rfl
    rcases h.digit_of_mem (List.mem_cons_of_mem _ List.mem_cons_self) with rfl | ⟨d, hd, below⟩
    · exact solid rfl
    · exact absurd (beyond d ((digit?_toLower c).trans hd)) (Nat.not_le.2 below)
  · rfl

theorem dropMark?_of_markOf? {letter : Char} (hl : markOf? radix = some letter)
    (h : Grouped radix cs n) : dropMark? letter cs = none := by
  rw [markOf?.eq_def] at hl
  split at hl <;> cases hl <;>
    exact dropMark?_of_grouped h (by decide) fun d hd => by cases hd; decide

theorem unsigned?_of_unsigned {base : Nat} (h : Unsigned base cs n) :
    unsigned? base cs = some (min n ceiling) := by
  cases h with
  | plain positive h =>
    have unmarked : (markOf? base).bind (dropMark? · cs) = none := by
      cases mark : markOf? base with
      | none => rfl
      | some letter => exact dropMark?_of_markOf? mark h
    rw [unsigned?, if_neg positive, unmarked]
    exact magnitude?_of_grouped h false
  | marked mark allowed h =>
    rw [← magnitude?_of_body h]
    cases mark with
    | hex hc | octal hc | binary hc => rcases hc with rfl | rfl <;> rcases allowed with rfl | rfl <;> rfl
  | auto h zeros =>
    have unmarked (letter : Char) (solid : letter ≠ '_')
        (beyond : ∀ d, digit? letter = some d → 10 ≤ d) : dropMark? letter cs = none :=
      dropMark?_of_grouped h solid beyond
    have led : ¬ (cs.head? = some '0' ∧ cs.any (fun c => c != '0' && c != '_')) := by
      simpa [← or_iff_not_imp_left] using zeros
    rw [unsigned?, if_pos rfl, unsignedAuto?, unmarked 'x' (by decide) (by rintro d ⟨⟩; decide),
      unmarked 'o' (by decide) (by rintro d ⟨⟩; decide),
      unmarked 'b' (by decide) (by rintro d ⟨⟩; decide)]
    exact (if_neg led).trans (magnitude?_of_grouped h false)

-- ---------------------------------------------------------------------------
-- Signs and blanks
-- ---------------------------------------------------------------------------

theorem splitSign_of_digits (h : ∀ c ∈ cs, 0x30 ≤ c.toNat) : splitSign cs = (false, cs) := by
  cases cs with
  | nil => rfl
  | cons c cs =>
    have digit : 0x30 ≤ c.toNat := h c List.mem_cons_self
    have minus : c ≠ '-' := by
      rintro rfl
      exact absurd digit (by decide)
    have plus : c ≠ '+' := by
      rintro rfl
      exact absurd digit (by decide)
    simp [splitSign, minus, plus]

theorem ofMagnitude_eq (negative : Bool) (n : Nat) :
    ofMagnitude negative n =
      (Checked.narrow? (if negative then -(n : Int) else n)).elim (.error .tooLarge) .ok := by
  rw [ofMagnitude]
  split
  · next h => rw [h, Option.elim_some]
  · next h => rw [h, Option.elim_none]

/-- A number from the ceiling on is no word, with either sign. -/
theorem ofMagnitude_min_ceiling (negative : Bool) (n : Nat) :
    ofMagnitude negative (min n ceiling) = ofMagnitude negative n := by
  rcases Nat.le_total n ceiling with hn | hn
  · rw [Nat.min_eq_left hn]
  · have beyond {k : Nat} (hk : ceiling ≤ k) : ofMagnitude negative k = .error .tooLarge := by
      have large : ¬ Checked.Fits (if negative then -(k : Int) else k) := by
        rw [ceiling] at hk
        cases negative <;> simp [Checked.Fits] <;> omega
      rw [ofMagnitude_eq, Checked.narrow?, if_neg large, Option.elim_none]
    rw [Nat.min_eq_right hn, beyond (Nat.le_refl _), beyond hn]

/-- A numeral is read as the word that it denotes, unless it denotes none. -/
theorem parse_of_spells {base : Nat} {text : List Char} {m : Int}
    (h : Spells base (Text.trim Text.isBlank text) m) :
    parse base text = (Checked.narrow? m).elim (.error .tooLarge) .ok := by
  generalize trimmed : Text.trim Text.isBlank text = cs at h
  have read {negative : Bool} {body : List Char} {n : Nat} (sign : splitSign cs = (negative, body))
      (h : Unsigned base body n) : parse base text = ofMagnitude negative n := by
    rw [parse, trimmed, sign]
    simp only [unsigned?_of_unsigned h, ofMagnitude_min_ceiling]
  cases h with
  | plain h =>
    have sign := splitSign_of_digits fun c hc => (h.visible c hc).1
    simpa [ofMagnitude_eq] using read sign h
  | @plus cs n h =>
    have sign : splitSign ('+' :: cs) = (false, cs) := rfl
    simpa [ofMagnitude_eq] using read sign h
  | @minus cs n h =>
    have sign : splitSign ('-' :: cs) = (true, cs) := rfl
    simpa [ofMagnitude_eq] using read sign h

theorem spells_signed {base : Nat} {n : Int} {body : List Char} (h : Unsigned base body n.natAbs) :
    Spells base ((if decide (n < 0) then ['-'] else []) ++ body) n := by
  by_cases negative : n < 0
  · have whole := Spells.minus h
    rw [show -(n.natAbs : Int) = n by omega] at whole
    simpa [negative] using whole
  · have whole := Spells.plain h
    rw [show (n.natAbs : Int) = n by omega] at whole
    simpa [negative] using whole

/-- A word is read from its magnitude behind its sign, with blanks before it. -/
theorem parse_of_unsigned {base : Nat} {n : Int64} {body : List Char}
    (h : Unsigned base body n.toInt.natAbs) (blanks : Nat) :
    parse base (List.replicate blanks ' ' ++
      ((if decide (n.toInt < 0) then ['-'] else []) ++ body)) = .ok n := by
  have solid : ∀ c ∈ (if decide (n.toInt < 0) then ['-'] else []) ++ body,
      Text.isBlank c = false := by
    intro c hc
    rcases List.mem_append.1 hc with hc | hc
    · split at hc
      · cases List.mem_singleton.1 hc
        rfl
      · cases hc
    · have := h.visible c hc
      exact Text.isBlank_of_visible (by omega)
  have trimmed := Text.trim_replicate_append (show Text.isBlank ' ' = true from rfl) blanks solid
  have spelled := spells_signed h
  rw [← trimmed] at spelled
  rw [parse_of_spells spelled, Checked.narrow?_toInt, Option.elim_some]

end ObjectModel.Numeral
