import Mathlib.Data.List.Forall2
import ObjectModel.Operator
import ObjectModel.Proofs.Run

/-!
# The grammar of percent formats

A format is a sequence of literal characters, of percent signs that are written
twice, and of directives. It fits items when there is one for each directive and
each is of a kind that its directive takes; then the result is the parts in
order, each directive with its item in place of it. Otherwise the fault is that
of the first place where the format, read from the left, does not go on.

Main statement: `Percent.mod_outcomes`.
-/

namespace ObjectModel.Percent

-- ---------------------------------------------------------------------------
-- Parts of a format
-- ---------------------------------------------------------------------------

def digit (k : Fin 10) : Char := Nat.digitChar k

/-- What a directive has before its letter: `%[0][width]`. A zero behind the
percent sign is always the flag. -/
structure Opening where
  zero : Bool
  width : Option (Fin 10)
  zero_of_width : width = some 0 → zero = true

namespace Opening

def spell (o : Opening) : List Char :=
  '%' :: ((if o.zero then ['0'] else []) ++ (o.width.map digit).toList)

def size (o : Opening) : Nat := (o.width.map Fin.val).getD 0

/-- Nothing but the percent sign. -/
def Bare (o : Opening) : Prop := o.zero = false ∧ o.width = none

end Opening

inductive Letter where
  | s
  | r
  | d
  | x
  | X

namespace Letter

def char : Letter → Char
  | .s => 's'
  | .r => 'r'
  | .d => 'd'
  | .x => 'x'
  | .X => 'X'

/-- How the letters for numbers write a magnitude. -/
def digits? : Letter → Option (Nat → List Char)
  | .s | .r => none
  | .d => some (Nat.toDigits 10)
  | .x => some (Nat.toDigits 16)
  | .X => some fun n => (Nat.toDigits 16 n).map Char.toUpper

/-- Why a letter for numbers does not take a value of another kind. -/
def refusal : Letter → Kind → Cause
  | .d, k => .formatNeedsNumber k
  | l, k => .formatNeedsInteger l.char k

/-- The letters for numbers take integers and booleans, the others any value. -/
def Accepts (l : Letter) (v : Value) : Prop :=
  l.digits?.isSome → v.kind = .int ∨ v.kind = .bool

end Letter

structure Directive extends Opening where
  letter : Letter

def Directive.spell (d : Directive) : List Char := d.toOpening.spell ++ [d.letter.char]

inductive Part where
  | literal (c : Char) (plain : c ≠ '%')
  | percent
  | directive (d : Directive)

namespace Part

def spell : Part → List Char
  | .literal c _ => [c]
  | .percent => ['%', '%']
  | .directive d => d.spell

def directive? : Part → Option Directive
  | .directive d => some d
  | _ => none

end Part

/-- The format that the parts make up. -/
def spell (parts : List Part) : List Char := parts.flatMap Part.spell

/-- The directives take the items, one each. -/
def Accepts (parts : List Part) (items : List Value) : Prop :=
  List.Forall₂ (fun d v => d.letter.Accepts v) (parts.filterMap Part.directive?) items

-- ---------------------------------------------------------------------------
-- Results
-- ---------------------------------------------------------------------------

/-- As many fill characters stand between the two as the width asks for. -/
def Aligned (width : Nat) (fill : Char) (sign body text : List Char) : Prop :=
  ∃ k, text = sign ++ List.replicate k fill ++ body ∧
    text.length = max width (sign.length + body.length)

def sign (n : Int64) : List Char := if n.toInt < 0 then ['-'] else []

/-- The text that a directive has a value rendered as: aligned to the right with
spaces, or with zeros behind the sign when it asks for a number with them. -/
inductive Directive.Renders (h : Heap) (d : Directive) (v : Value) (text : List Char) : Prop
  | str (letter : d.letter = .s) (aligned : Aligned d.size ' ' [] (h.str v) text)
  | repr (letter : d.letter = .r) (aligned : Aligned d.size ' ' [] (h.repr v) text)
  | spaced {digits : Nat → List Char} {n : Int64} (letter : d.letter.digits? = some digits)
    (number : v.asInt? = some n) (flag : d.zero = false)
    (aligned : Aligned d.size ' ' [] (sign n ++ digits n.toInt.natAbs) text)
  | filled {digits : Nat → List Char} {n : Int64} (letter : d.letter.digits? = some digits)
    (number : v.asInt? = some n) (flag : d.zero = true)
    (aligned : Aligned d.size '0' (sign n) (digits n.toInt.natAbs) text)

/-- The parts in order, with the items rendered in place of the directives. -/
inductive Formats (h : Heap) : List Part → List Value → List Char → Prop
  | nil : Formats h [] [] []
  | literal {c : Char} (plain : c ≠ '%') {parts : List Part} {items : List Value} {text : List Char}
    (rest : Formats h parts items text) : Formats h (.literal c plain :: parts) items (c :: text)
  | percent {parts : List Part} {items : List Value} {text : List Char}
    (rest : Formats h parts items text) : Formats h (.percent :: parts) items ('%' :: text)
  | directive {d : Directive} {v : Value} {first : List Char} (renders : d.Renders h v first)
    {parts : List Part} {items : List Value} {text : List Char}
    (rest : Formats h parts items text) :
    Formats h (.directive d :: parts) (v :: items) (first ++ text)

-- ---------------------------------------------------------------------------
-- Failures
-- ---------------------------------------------------------------------------

/-- What a format starts with is no part of a format. A gap is no exception. -/
inductive Breaks : List Char → Fault → Option ErrorKind → Prop
  | ended (o : Opening) : Breaks o.spell (.cause .incompleteFormat) (some .value)
  | wide (o : Opening) (sized : o.width.isSome) (k : Fin 10) (tail : List Char) :
    Breaks (o.spell ++ digit k :: tail) (.gap ⟨"multi-digit width in % format", "str"⟩) none
  | unknown (o : Opening) {c : Char} (notDigit : ∀ k, c ≠ digit k)
    (notLetter : ∀ l, c ≠ Letter.char l) (notPercent : o.Bare → c ≠ '%') (tail : List Char) :
    Breaks (o.spell ++ c :: tail) (.gap ⟨s!"%{c} conversion", "str"⟩) none

/-- With these items left, the rest of a format does not go on. -/
inductive Stops : List Char → List Value → Fault → Option ErrorKind → Prop
  | missing (d : Directive) (tail : List Char) :
    Stops (d.spell ++ tail) [] (.cause .missingFormatItem) (some .type)
  | refused (d : Directive) (tail : List Char) {v : Value} (kind : ¬ d.letter.Accepts v)
    (items : List Value) :
    Stops (d.spell ++ tail) (v :: items) (.cause (d.letter.refusal v.kind)) (some .type)
  | broken {rest : List Char} {f : Fault} {e : Option ErrorKind} (breaks : Breaks rest f e)
    (items : List Value) : Stops rest items f e
  | surplus (v : Value) (items : List Value) :
    Stops [] (v :: items) (.cause .extraFormatItems) (some .type)

/-- Parts that fit their items come first, and then the format does not go on. -/
def Fails (format : List Char) (items : List Value) (f : Fault) : Prop :=
  ∃ parts rest used left, format = spell parts ++ rest ∧ items = used ++ left ∧
    Accepts parts used ∧ Stops rest left f f.kind?

variable {h : Heap} {d : Directive} {v : Value} {text rest tail : List Char} {parts : List Part}
  {items used left : List Value} {f : Fault} {e : Option ErrorKind}

theorem Stops.kind?_eq (stops : Stops rest items f e) : f.kind? = e := by
  cases stops with
  | missing | surplus => rfl
  | refused d => obtain ⟨_, _ | _⟩ := d <;> rfl
  | broken breaks => cases breaks <;> rfl

-- ---------------------------------------------------------------------------
-- One item
-- ---------------------------------------------------------------------------

theorem aligned_iff {width : Nat} {fill : Char} {sign body : List Char} :
    Aligned width fill sign body text ↔
      text = sign ++ Numeral.padLeft fill (width - sign.length) body := by
  rw [Aligned, Numeral.padLeft, ← List.append_assoc]
  constructor
  · rintro ⟨k, rfl, length⟩
    simp only [List.length_append, List.length_replicate] at length
    rw [show k = width - sign.length - body.length by omega]
  · rintro rfl
    refine ⟨_, rfl, ?_⟩
    simp only [List.length_append, List.length_replicate]
    omega

/-- The conversion that a letter is for. -/
def Letter.conversion : Letter → Conversion
  | .s => .str
  | .r => .repr
  | .d => .int .decimal
  | .x => .int .lowerHex
  | .X => .int .upperHex

def Letter.style? (l : Letter) : Option Numeral.Style :=
  match l.conversion with
  | .int style => some style
  | _ => none

theorem Letter.digits?_eq (l : Letter) : l.digits? = l.style?.map Numeral.Style.digits := by
  cases l <;> rfl

theorem sign_eq (n : Int64) : sign n = if n < 0 then ['-'] else [] := by
  simp only [sign, Int64.lt_iff_toInt_lt, Int64.toInt_zero]

theorem render_eq (style : Numeral.Style) (zero : Bool) (width : Nat) (n : Int64) :
    Numeral.render style zero width n =
      if zero then sign n ++ Numeral.padLeft '0' (width - (sign n).length) (style.digits n.toInt.natAbs)
      else Numeral.padLeft ' ' width (sign n ++ style.digits n.toInt.natAbs) := by
  simp only [Numeral.render, Numeral.padNumber, sign_eq, decide_eq_true_eq]

/-- A letter is for numbers if its conversion has a style. -/
theorem Letter.accepts_iff (l : Letter) (v : Value) :
    l.Accepts v ↔ l.style? = none ∨ ∃ n, v.asInt? = some n := by
  have number : (v.kind = .int ∨ v.kind = .bool) ↔ ∃ n, v.asInt? = some n := by
    cases v <;> simp [Value.kind, Value.asInt?]
  rw [Accepts, digits?_eq, Option.isSome_map, number, Option.isSome_iff_ne_none]
  exact Decidable.imp_iff_not_or.trans (or_congr_left not_not)

section
variable {l : Letter} {style : Numeral.Style} (hl : l.style? = some style)
include hl

theorem renderItem_number {n : Int64} (number : v.asInt? = some n) (zero : Bool) (width : Nat) :
    renderItem h zero width l.conversion v = .ok (Numeral.render style zero width n) := by
  cases l <;> cases hl <;> simp only [Letter.conversion, renderItem, number]

theorem renderItem_refused (other : v.asInt? = none) (zero : Bool) (width : Nat) :
    renderItem h zero width l.conversion v = .error (l.refusal v.kind) := by
  cases l <;> cases hl <;> simp only [Letter.conversion, renderItem, other] <;> rfl

end

theorem Directive.Renders.renderItem_eq (renders : d.Renders h v text) :
    renderItem h d.zero d.size d.letter.conversion v = .ok text := by
  cases renders with
  | str letter aligned | repr letter aligned =>
    obtain rfl := aligned_iff.1 aligned
    rw [letter]
    rfl
  | spaced letter number flag aligned =>
    rw [Letter.digits?_eq, Option.map_eq_some_iff] at letter
    obtain ⟨style, hl, rfl⟩ := letter
    rw [renderItem_number hl number, render_eq, flag, if_neg Bool.false_ne_true]
    exact congrArg _ (aligned_iff.1 aligned).symm
  | filled letter number flag aligned =>
    rw [Letter.digits?_eq, Option.map_eq_some_iff] at letter
    obtain ⟨style, hl, rfl⟩ := letter
    rw [renderItem_number hl number, render_eq, flag, if_pos rfl]
    exact congrArg _ (aligned_iff.1 aligned).symm

theorem exists_renders (h : Heap) (accepts : d.letter.Accepts v) : ∃ text, d.Renders h v text := by
  rcases (d.letter.accepts_iff v).1 accepts with other | ⟨n, number⟩
  · cases letter : d.letter with
    | s => exact ⟨_, .str letter (aligned_iff.2 rfl)⟩
    | r => exact ⟨_, .repr letter (aligned_iff.2 rfl)⟩
    | d | x | X => rw [letter] at other; cases other
  · cases letter : d.letter with
    | s => exact ⟨_, .str letter (aligned_iff.2 rfl)⟩
    | r => exact ⟨_, .repr letter (aligned_iff.2 rfl)⟩
    | d | x | X =>
      have digits := congrArg Letter.digits? letter
      cases flag : d.zero with
      | false => exact ⟨_, .spaced digits number flag (aligned_iff.2 rfl)⟩
      | true => exact ⟨_, .filled digits number flag (aligned_iff.2 rfl)⟩

theorem Directive.Renders.accepts (renders : d.Renders h v text) : d.letter.Accepts v := by
  rw [Letter.accepts_iff]
  cases renders with
  | str letter | repr letter => exact .inl (letter ▸ rfl)
  | spaced _ number | filled _ number => exact .inr ⟨_, number⟩

theorem renderItem_of_not_accepts (refused : ¬ d.letter.Accepts v) :
    renderItem h d.zero d.size d.letter.conversion v = .error (d.letter.refusal v.kind) := by
  rw [Letter.accepts_iff, not_or, not_exists] at refused
  obtain ⟨style, hl⟩ := Option.ne_none_iff_exists'.1 refused.1
  exact renderItem_refused hl (Option.eq_none_iff_forall_ne_some.2 refused.2) d.zero d.size

-- ---------------------------------------------------------------------------
-- Reading the parts
-- ---------------------------------------------------------------------------

theorem decimalDigit?_digit (k : Fin 10) : FormatSpec.decimalDigit? (digit k) = some k.val := by
  revert k
  decide

theorem digit_ne_percent (k : Fin 10) : digit k ≠ '%' := by
  revert k
  decide

theorem eq_digit_of_decimalDigit? {c : Char} {n : Nat} (hc : FormatSpec.decimalDigit? c = some n) :
    ∃ k, c = digit k := by
  rw [FormatSpec.decimalDigit?, Option.ite_none_right_eq_some] at hc
  obtain ⟨⟨low, high⟩, -⟩ := hc
  have low : 48 ≤ c.toNat := low
  have high : c.toNat ≤ 57 := high
  refine ⟨⟨c.toNat - 48, by omega⟩, Char.toNat_inj.1 ?_⟩
  rw [digit, Nat.toNat_digitChar_of_lt_ten (by omega)]
  exact (Nat.add_sub_cancel' low).symm

/-- How far the reader has come behind an opening. -/
def Opening.place (o : Opening) : Place :=
  match o.width with
  | some k => .sized o.zero k
  | none => if o.zero then .flagged true else .opened

theorem piecesFrom_opening (o : Opening) (cs : List Char) :
    piecesFrom .outside (o.spell ++ cs) = piecesFrom o.place cs := by
  obtain ⟨_ | _, _ | k, flagged⟩ := o
  · rfl
  · have notZero : digit k ≠ '0' := by
      have apart : ∀ k : Fin 10, k ≠ 0 → digit k ≠ '0' := by decide
      exact apart k fun hk => absurd (flagged (congrArg some hk)) Bool.false_ne_true
    simp [Opening.spell, Opening.place, piecesFrom, digit_ne_percent, notZero, decimalDigit?_digit]
  · rfl
  · simp [Opening.spell, Opening.place, piecesFrom, decimalDigit?_digit]

theorem piecesFrom_place {o : Opening} {c : Char} (notDigit : FormatSpec.decimalDigit? c = none)
    (notPercent : o.Bare → c ≠ '%') (cs : List Char) :
    piecesFrom o.place (c :: cs) = complete o.zero o.size c (pieces cs) := by
  obtain ⟨_ | _, _ | k, flagged⟩ := o
  · have percent := notPercent ⟨rfl, rfl⟩
    have zero : c ≠ '0' := by
      rintro rfl
      cases notDigit
    simp [Opening.place, Opening.size, piecesFrom, pieces, percent, zero, notDigit]
  · simp [Opening.place, Opening.size, piecesFrom, pieces, notDigit]
  · simp [Opening.place, Opening.size, piecesFrom, pieces, notDigit]
  · simp [Opening.place, Opening.size, piecesFrom, pieces, notDigit]

def Part.piece : Part → Piece
  | .literal c _ => .literal c
  | .percent => .literal '%'
  | .directive d => .conversion d.zero d.size d.letter.conversion

theorem Letter.ofChar?_char (l : Letter) : Conversion.ofChar? l.char = some l.conversion := by
  cases l <;> rfl

theorem Letter.decimalDigit?_char (l : Letter) : FormatSpec.decimalDigit? l.char = none := by
  cases l <;> rfl

theorem Letter.char_ne_percent (l : Letter) : l.char ≠ '%' := by
  cases l <;> decide

theorem pieces_directive (d : Directive) (tail : List Char) :
    pieces (d.spell ++ tail) = .conversion d.zero d.size d.letter.conversion :: pieces tail := by
  rw [pieces, Directive.spell, List.append_assoc, piecesFrom_opening]
  refine (piecesFrom_place d.letter.decimalDigit?_char (fun _ => d.letter.char_ne_percent)
    tail).trans ?_
  rw [complete, d.letter.ofChar?_char]

theorem pieces_part (p : Part) (tail : List Char) :
    pieces (p.spell ++ tail) = p.piece :: pieces tail := by
  cases p with
  | literal c plain => exact if_neg plain
  | percent => rfl
  | directive d => exact pieces_directive d tail

theorem pieces_spell (parts : List Part) (tail : List Char) :
    pieces (spell parts ++ tail) = parts.map Part.piece ++ pieces tail := by
  induction parts with
  | nil => rfl
  | cons p parts ih =>
    rw [spell, List.flatMap_cons, List.append_assoc, pieces_part]
    exact congrArg (p.piece :: ·) ih

theorem ofChar?_eq_none {c : Char} (notLetter : ∀ l, c ≠ Letter.char l) :
    Conversion.ofChar? c = none := by
  rw [Conversion.ofChar?.eq_def]
  split
  · exact absurd rfl (notLetter .s)
  · exact absurd rfl (notLetter .r)
  · exact absurd rfl (notLetter .d)
  · exact absurd rfl (notLetter .x)
  · exact absurd rfl (notLetter .X)
  · rfl

theorem decimalDigit?_eq_none {c : Char} (notDigit : ∀ k, c ≠ digit k) :
    FormatSpec.decimalDigit? c = none :=
  Option.eq_none_iff_forall_ne_some.2 fun _ hn =>
    have ⟨k, hk⟩ := eq_digit_of_decimalDigit? hn
    notDigit k hk

theorem render_breaks (breaks : Breaks rest f e) (items : List Value) :
    render h (pieces rest) items = .error f := by
  cases breaks with
  | ended o =>
    have ended : pieces o.spell = [.incomplete] := by
      rw [pieces, ← List.append_nil o.spell, piecesFrom_opening]
      obtain ⟨_ | _, _ | _, _⟩ := o <;> rfl
    rw [ended, render]
  | wide o sized k tail =>
    have wide : pieces (o.spell ++ digit k :: tail) = [.wideWidth] := by
      obtain ⟨width, hw⟩ := Option.isSome_iff_exists.1 sized
      rw [pieces, piecesFrom_opening, Opening.place, hw]
      simp only [piecesFrom, decimalDigit?_digit]
    rw [wide, render]
  | @unknown o c notDigit notLetter notPercent tail =>
    have unknown : pieces (o.spell ++ c :: tail) = [.unknown c] := by
      rw [pieces, piecesFrom_opening, piecesFrom_place (decimalDigit?_eq_none notDigit) notPercent,
        complete, ofChar?_eq_none notLetter]
    rw [unknown, render]

-- ---------------------------------------------------------------------------
-- Running a format
-- ---------------------------------------------------------------------------

theorem Formats.render_append (formats : Formats h parts used text) (ps : List Piece)
    (left : List Value) :
    render h (parts.map Part.piece ++ ps) (used ++ left) = (render h ps left).map (text ++ ·) := by
  have joined (first text : List Char) : (render h ps left).map (first ++ text ++ ·) =
      ((render h ps left).map (text ++ ·)).map (first ++ ·) := by
    cases render h ps left with
    | ok tail => exact congrArg Except.ok (List.append_assoc ..)
    | error f => rfl
  induction formats with
  | nil => cases hr : render h ps left <;> simp [Except.map, hr]
  | literal _ _ ih | percent _ ih =>
    rw [List.map_cons, List.cons_append, Part.piece, render, ih]
    exact (joined [_] _).symm
  | directive renders _ ih =>
    rw [List.map_cons, List.cons_append, List.cons_append, Part.piece, render,
      renders.renderItem_eq]
    exact (congrArg _ ih).trans (joined _ _).symm

theorem exists_formats (h : Heap) (accepts : Accepts parts items) :
    ∃ text, Formats h parts items text := by
  induction parts generalizing items with
  | nil =>
    cases accepts
    exact ⟨[], .nil⟩
  | cons p parts ih =>
    cases p with
    | literal c plain =>
      obtain ⟨text, rest⟩ := ih accepts
      exact ⟨_, .literal plain rest⟩
    | percent =>
      obtain ⟨text, rest⟩ := ih accepts
      exact ⟨_, .percent rest⟩
    | directive d =>
      cases accepts with
      | cons first others =>
        obtain ⟨text, rest⟩ := ih others
        obtain ⟨shown, renders⟩ := exists_renders h first
        exact ⟨_, .directive renders rest⟩

theorem Formats.accepts (formats : Formats h parts items text) : Accepts parts items := by
  induction formats with
  | nil => exact .nil
  | literal _ _ ih | percent _ ih => exact ih
  | directive renders _ ih => exact .cons renders.accepts ih

theorem render_of_formats (formats : Formats h parts items text) :
    render h (pieces (spell parts)) items = .ok text := by
  have run := formats.render_append (pieces []) []
  rw [List.append_nil] at run
  rw [← List.append_nil (spell parts), pieces_spell]
  exact run.trans (congrArg Except.ok (List.append_nil text))

theorem Stops.render_eq (stops : Stops rest left f e) : render h (pieces rest) left = .error f := by
  cases stops with
  | missing d tail => rw [pieces_directive, render]
  | refused d tail kind items => rw [pieces_directive, render, renderItem_of_not_accepts kind]
  | broken breaks => exact render_breaks breaks left
  | surplus => rfl

theorem render_of_fails {format : List Char} (fails : Fails format items f) (h : Heap) :
    render h (pieces format) items = .error f := by
  obtain ⟨parts, rest, used, left, rfl, rfl, accepts, stops⟩ := fails
  obtain ⟨text, formats⟩ := exists_formats h accepts
  rw [pieces_spell, formats.render_append, stops.render_eq]
  rfl

-- ---------------------------------------------------------------------------
-- Every format
-- ---------------------------------------------------------------------------

/-- Behind a percent sign that is not written twice there is a widest opening. -/
theorem exists_opening (cs : List Char) (single : ∀ tail, cs ≠ '%' :: tail) :
    ∃ (o : Opening) (rest : List Char), '%' :: cs = o.spell ++ rest ∧
      ∀ c tail, rest = c :: tail → (o.Bare → c ≠ '%') ∧ ((∃ k, c = digit k) → o.width.isSome) := by
  have sized (zero : Bool) (cs : List Char) (flagged : ∀ tail, cs = '0' :: tail → zero = true)
      (single : zero = false → ∀ tail, cs ≠ '%' :: tail) :
      ∃ (o : Opening) (rest : List Char), o.zero = zero ∧ cs = (o.width.map digit).toList ++ rest ∧
        ∀ c tail, rest = c :: tail → (o.Bare → c ≠ '%') ∧ ((∃ k, c = digit k) → o.width.isSome) := by
    by_cases wide : ∃ k tail, cs = digit k :: tail
    · obtain ⟨k, tail, rfl⟩ := wide
      refine ⟨⟨zero, some k, fun hk => flagged tail ?_⟩, tail, rfl, rfl, fun _ _ _ => ?_⟩
      · obtain rfl := Option.some.inj hk
        rfl
      · exact ⟨fun bare => absurd bare.2 nofun, fun _ => rfl⟩
    · refine ⟨⟨zero, none, nofun⟩, cs, rfl, rfl, ?_⟩
      rintro c tail rfl
      refine ⟨?_, fun ⟨k, hk⟩ => (wide ⟨k, tail, hk ▸ rfl⟩).elim⟩
      rintro ⟨bare, -⟩ rfl
      exact single bare tail rfl
  by_cases zero : ∃ tail, cs = '0' :: tail
  · obtain ⟨tail, rfl⟩ := zero
    obtain ⟨o, rest, flag, rfl, ends⟩ := sized true tail (fun _ _ => rfl) nofun
    refine ⟨o, rest, ?_, ends⟩
    simp [Opening.spell, flag]
  · obtain ⟨o, rest, flag, rfl, ends⟩ := sized false cs (fun tail h => (zero ⟨tail, h⟩).elim)
      fun _ => single
    refine ⟨o, rest, ?_, ends⟩
    simp [Opening.spell, flag]

/-- A format that is not empty starts with a part, or breaks. -/
theorem part_or_breaks (c : Char) (cs : List Char) :
    (∃ (p : Part) (rest : List Char), c :: cs = p.spell ++ rest) ∨ ∃ f e, Breaks (c :: cs) f e := by
  by_cases plain : c = '%'
  · subst plain
    by_cases twice : ∃ tail, cs = '%' :: tail
    · obtain ⟨tail, rfl⟩ := twice
      exact .inl ⟨.percent, tail, rfl⟩
    · obtain ⟨o, rest, whole, ends⟩ := exists_opening cs fun tail h => twice ⟨tail, h⟩
      rw [whole]
      cases rest with
      | nil =>
        rw [List.append_nil]
        exact .inr ⟨_, _, .ended o⟩
      | cons c tail =>
        obtain ⟨notPercent, sized⟩ := ends c tail rfl
        by_cases isDigit : ∃ k, c = digit k
        · have width := sized isDigit
          obtain ⟨k, rfl⟩ := isDigit
          exact .inr ⟨_, _, .wide o width k tail⟩
        · by_cases isLetter : ∃ l, c = Letter.char l
          · obtain ⟨l, rfl⟩ := isLetter
            exact .inl ⟨.directive ⟨o, l⟩, tail, List.append_cons ..⟩
          · rw [not_exists] at isDigit isLetter
            exact .inr ⟨_, _, .unknown o isDigit isLetter notPercent tail⟩
  · exact .inl ⟨.literal c plain, cs, rfl⟩

theorem Part.length_pos (p : Part) : 0 < p.spell.length := by
  cases p with
  | literal | percent => exact Nat.succ_pos _
  | directive d => simp [spell, Directive.spell]

theorem Stops.fails (stops : Stops rest items f e) : Fails rest items f :=
  ⟨[], rest, [], items, rfl, rfl, .nil, stops.kind?_eq ▸ stops⟩

/-- A failure is the same with one more part that fits before it. -/
theorem Fails.cons {format : List Char} (fails : Fails format items f) {p : Part}
    {first : List Value} (accepts : Accepts [p] first) :
    Fails (p.spell ++ format) (first ++ items) f := by
  obtain ⟨parts, rest, used, left, rfl, rfl, others, stops⟩ := fails
  refine ⟨p :: parts, rest, first ++ used, left, ?_, (List.append_assoc ..).symm, ?_, stops⟩
  · exact (List.append_assoc p.spell (spell parts) rest).symm
  · rw [Accepts, ← List.singleton_append, List.filterMap_append]
    exact List.rel_append accepts others

/-- Every format fits its items or fails. The induction is on the format, part by
part from the left. -/
theorem formats_or_fails (h : Heap) (format : List Char) (items : List Value) :
    (∃ parts text, format = spell parts ∧ Formats h parts items text) ∨
      ∃ f, Fails format items f := by
  match format, items with
  | [], [] => exact .inl ⟨[], [], rfl, .nil⟩
  | [], v :: items => exact .inr ⟨_, (Stops.surplus v items).fails⟩
  | c :: cs, items =>
    rcases part_or_breaks c cs with ⟨p, rest, whole⟩ | ⟨f, e, breaks⟩
    · have shorter : rest.length < (c :: cs).length := by
        have positive := p.length_pos
        rw [whole, List.length_append]
        omega
      rw [whole]
      cases p with
      | literal c plain =>
        rcases formats_or_fails h rest items with ⟨parts, text, rfl, formats⟩ | ⟨f, fails⟩
        · exact .inl ⟨_, _, rfl, .literal plain formats⟩
        · exact .inr ⟨f, fails.cons (p := .literal c plain) .nil⟩
      | percent =>
        rcases formats_or_fails h rest items with ⟨parts, text, rfl, formats⟩ | ⟨f, fails⟩
        · exact .inl ⟨_, _, rfl, .percent formats⟩
        · exact .inr ⟨f, fails.cons (p := .percent) .nil⟩
      | directive d =>
        cases items with
        | nil => exact .inr ⟨_, (Stops.missing d rest).fails⟩
        | cons v items =>
          by_cases accepts : d.letter.Accepts v
          · rcases formats_or_fails h rest items with ⟨parts, text, rfl, formats⟩ | ⟨f, fails⟩
            · obtain ⟨first, renders⟩ := exists_renders h accepts
              exact .inl ⟨_, _, rfl, .directive renders formats⟩
            · exact .inr ⟨f, fails.cons (p := .directive d) (.cons accepts .nil)⟩
          · exact .inr ⟨_, (Stops.refused d rest accepts items).fails⟩
    · exact .inr ⟨f, (Stops.broken breaks items).fails⟩
termination_by format.length
decreasing_by all_goals exact shorter

theorem runOn_mod (tag : Tag) (t : Text) (v : Value) (s : Session) :
    (Action.binary .mod (.str tag t) v).runOn s =
      match format s.heap t.chars v with
      | .ok text => (Action.newChars text).runOn s
      | .error f => (.error f, s) := by
  rw [Action.binary, Action.runOn_bind_of_ok (Action.runOn_heap s)]
  cases format s.heap t.chars v <;> rfl

/-- Interpolation succeeds exactly when the format is made of parts whose
directives take the items, one each, and then gives the parts in order with the
items in place of the directives. Otherwise it ends with the fault of the first
place, read from the left, where the format does not go on, and changes nothing. -/
theorem mod_outcomes (tag : Tag) (t : Text) (v : Value) (s : Session) :
    let run := (Action.binary .mod (.str tag t) v).runOn s
    let items := itemsOf v
    ((∃ result s', run = (.ok result, s')) ↔ ∃ parts, t.chars = spell parts ∧ Accepts parts items) ∧
    (∀ parts, t.chars = spell parts → Accepts parts items → ∃ text tag' fresh,
      Formats s.heap parts items text ∧ run = (.ok (.str tag' (.ofChars text)), s.reach fresh)) ∧
    ∀ f s', run = (.error f, s') ↔ Fails t.chars items f ∧ s' = s := by
  intro run items
  have formatted {parts : List Part} (spelled : t.chars = spell parts)
      (accepts : Accepts parts items) : ∃ text tag' fresh, Formats s.heap parts items text ∧
        run = (.ok (.str tag' (.ofChars text)), s.reach fresh) := by
    obtain ⟨text, formats⟩ := exists_formats s.heap accepts
    have result : format s.heap t.chars v = .ok text := by
      rw [format, spelled, render_of_formats formats]
    obtain ⟨tag', fresh, made⟩ := Action.runOn_newChars text s
    refine ⟨text, tag', fresh, formats, (runOn_mod tag t v s).trans ?_⟩
    rw [result]
    exact made
  have failed {f : Fault} (fails : Fails t.chars items f) : run = (.error f, s) := by
    have result : format s.heap t.chars v = .error f := render_of_fails fails s.heap
    refine (runOn_mod tag t v s).trans ?_
    rw [result]
  refine ⟨⟨?_, ?_⟩, fun parts => formatted, fun f s' => ⟨fun ended => ?_, ?_⟩⟩
  · rintro ⟨result, s', ended⟩
    rcases formats_or_fails s.heap t.chars items with ⟨parts, text, spelled, formats⟩ | ⟨f, fails⟩
    · exact ⟨parts, spelled, formats.accepts⟩
    · cases (failed fails).symm.trans ended
  · rintro ⟨parts, spelled, accepts⟩
    obtain ⟨text, tag', fresh, -, ended⟩ := formatted spelled accepts
    exact ⟨_, _, ended⟩
  · rcases formats_or_fails s.heap t.chars items with ⟨parts, text, spelled, formats⟩ | ⟨f, fails⟩
    · obtain ⟨text, tag', fresh, -, ended'⟩ := formatted spelled formats.accepts
      cases ended'.symm.trans ended
    · cases (failed fails).symm.trans ended
      exact ⟨fails, rfl⟩
  · rintro ⟨fails, rfl⟩
    exact failed fails

end ObjectModel.Percent
