import ObjectModel.Call.Basic
import ObjectModel.Proofs.Numeral.Reading
import ObjectModel.Proofs.Run

/-!
# Reading what was written

Every word is read back from each of its written forms: its representation, its
hexadecimal form, a format specification and a conversion of a percent format.
Zeros between the sign and the digits and blanks before the sign do not change
what is read.

Main statement: `Numeral.text_round_trip`.
-/

namespace ObjectModel

/-- The radix that the letter of a specification names. -/
def FormatSpec.radix (spec : FormatSpec) : Nat :=
  match spec.type with
  | some 'x' | some 'X' => 16
  | some 'o' => 8
  | some 'b' => 2
  | _ => 10

namespace Numeral

-- ---------------------------------------------------------------------------
-- Digits in a style
-- ---------------------------------------------------------------------------

theorem denotes_digits_of_style (style : Style) (n : Nat) :
    Denotes style.radix (style.digits n) n := by
  have lower : Denotes style.radix (digits style.radix n) n :=
    denotes_digits (by cases style <;> decide) (by cases style <;> decide) n
  rw [Style.digits]
  split
  · exact lower.map_toUpper
  · exact lower

/-- Only zero itself is written with a zero in front. -/
theorem head?_digits {radix : Nat} (least : 1 < radix) (most : radix ≤ 16) (n : Nat)
    (h : (digits radix n).head? = some '0') : digits radix n = ['0'] := by
  induction n using Nat.strongRecOn with
  | ind n ih =>
    rw [digits] at h ⊢
    rcases Nat.lt_or_ge n radix with hn | hn
    · rw [Nat.toDigits_of_lt_base hn] at h ⊢
      exact congrArg (fun c => [c]) (Option.some.inj h)
    · have some : (Nat.toDigits radix (n / radix)).head?.isSome = true := by
        simp [Nat.toDigits_ne_nil]
      rw [Nat.toDigits_of_base_le least hn, List.head?_append, Option.or_of_isSome some] at h
      -- The digits in front would be those of zero, but a positive number stands there.
      have front := denotes_digits least most (n / radix)
      rw [ih (n / radix) (Nat.div_lt_self (by omega) least) h] at front
      have read := magnitude?_of_grouped front.grouped false
      rw [magnitude?, magnitudeFrom?_digit_cons (d := 0) rfl (by omega), magnitudeFrom?,
        Option.some.injEq, Nat.zero_mul] at read
      have positive : 0 < n / radix := Nat.div_pos hn (by omega)
      have : 0 < ceiling := by decide
      omega

-- ---------------------------------------------------------------------------
-- Each written form
-- ---------------------------------------------------------------------------

theorem unsigned_of_style (style : Style) {cs : List Char} {n : Nat}
    (h : Denotes style.radix cs n) : Unsigned style.radix cs n :=
  .plain (by cases style <;> decide) h.grouped

theorem parse_render (style : Style) (zero : Bool) (width : Nat) (n : Int64) :
    parse style.radix (render style zero width n) = .ok n := by
  have denotes := denotes_digits_of_style style n.toInt.natAbs
  have sign : decide (n < 0) = decide (n.toInt < 0) := decide_eq_decide.2 Int64.lt_iff_toInt_lt
  rw [render, padNumber, sign]
  split
  · have padded := denotes.zeros_append
      (width - (if decide (n.toInt < 0) then ['-'] else []).length -
        (style.digits n.toInt.natAbs).length)
    exact parse_of_unsigned (unsigned_of_style style padded) 0
  · exact parse_of_unsigned (unsigned_of_style style denotes) _

theorem parse_decimal (n : Int64) {base : Nat} (hbase : base = 10 ∨ base = 0) :
    parse base (decimal n.toInt) = .ok n := by
  have digits := (@denotes_digits 10 (by decide) (by decide) n.toInt.natAbs).grouped
  have unsigned : Unsigned base (Numeral.digits 10 n.toInt.natAbs) n.toInt.natAbs := by
    rcases hbase with rfl | rfl
    · exact .plain (by decide) digits
    · refine .auto digits fun leads c hc => .inl ?_
      rw [head?_digits (by decide) (by decide) _ leads] at hc
      exact List.mem_singleton.1 hc
  simpa [decimal] using parse_of_unsigned unsigned 0

theorem parse_hex (n : Int64) {base : Nat} (hbase : base = 16 ∨ base = 0) :
    parse base (hex n.toInt) = .ok n := by
  have digits := (@denotes_digits 16 (by decide) (by decide) n.toInt.natAbs).grouped
  have unsigned := Unsigned.marked (.hex (.inl rfl)) hbase (.digits digits)
  simpa [hex] using parse_of_unsigned unsigned 0

end Numeral

-- ---------------------------------------------------------------------------
-- Specifications and percent formats
-- ---------------------------------------------------------------------------

namespace FormatSpec

variable {n : Int64} {spec text : List Char}

theorem radix_of_style {zero : Bool} {width : Nat} {letter : Char} {style : Numeral.Style}
    (h : Numeral.Style.ofChar? letter = some style) :
    radix ⟨zero, width, some letter⟩ = style.radix := by
  rw [Numeral.Style.ofChar?.eq_def] at h
  split at h <;> cases h <;> rfl

/-- What a specification makes of a word is the word in the style that its
letter names. -/
theorem render_of_formatInt (h : formatInt n spec = .ok text) :
    ∃ parsed style, parse? spec = some parsed ∧ parsed.radix = style.radix ∧
      Numeral.render style parsed.zero parsed.width n = text := by
  cases known : parse? spec with
  | none => simp [formatInt, parse, known, bind, Except.bind] at h
  | some parsed =>
    obtain ⟨zero, width, type⟩ := parsed
    cases type with
    | none =>
      simp only [formatInt, parse, known] at h
      exact ⟨_, .decimal, rfl, rfl, Except.ok.inj h⟩
    | some letter =>
      cases named : Numeral.Style.ofChar? letter with
      | none => simp [formatInt, parse, known, named, bind, Except.bind] at h
      | some style =>
        simp only [formatInt, parse, known, bind, Except.bind, named] at h
        exact ⟨_, style, rfl, radix_of_style named, Except.ok.inj h⟩

end FormatSpec

namespace Percent

open FormatSpec

/-- The flag is read: what is left is a width and a letter. -/
theorem piecesFrom_flagged {cs : List Char} {zero : Bool} {width : Nat} {letter : Char}
    (h : takeWidth cs = (width, [letter])) (hl : decimalDigit? letter = none) :
    piecesFrom (.flagged zero) cs = complete zero width letter [] := by
  cases cs with
  | nil => cases h
  | cons c cs =>
    rw [takeWidth] at h
    cases digit : decimalDigit? c with
    | some d =>
      simp only [digit, Prod.mk.injEq] at h
      obtain ⟨rfl, rfl⟩ := h
      simp [piecesFrom, digit, hl]
    | none =>
      simp only [digit, Prod.mk.injEq, List.cons.injEq] at h
      obtain ⟨rfl, rfl, rfl⟩ := h
      simp [piecesFrom, hl]

/-- Without a flag a conversion is read as behind one that is not set. -/
theorem piecesFrom_opened {c : Char} {cs : List Char} (percent : c ≠ '%') (zero : c ≠ '0') :
    piecesFrom .opened (c :: cs) = piecesFrom (.flagged false) (c :: cs) := by
  simp [piecesFrom, percent, zero]

theorem eq_of_takeType {cs : List Char} {letter : Char} (h : takeType cs = (some letter, [])) :
    cs = [letter] := by
  cases cs with
  | nil => cases h
  | cons c cs =>
    rw [takeType] at h
    split at h
    · cases h
      rfl
    · cases h

/-- A specification with a letter is its flag, its width and the letter. -/
theorem take_of_parse? {spec : List Char} {zero : Bool} {width : Nat} {letter : Char}
    (h : parse? spec = some ⟨zero, width, some letter⟩) :
    (takeZero spec).1 = zero ∧ takeWidth (takeZero spec).2 = (width, [letter]) := by
  simp only [parse?, List.isEmpty_iff, Option.ite_none_right_eq_some, Option.some.injEq,
    FormatSpec.mk.injEq] at h
  obtain ⟨ended, flag, size, type⟩ := h
  exact ⟨flag, Prod.ext size (eq_of_takeType (Prod.ext type ended))⟩

/-- A specification behind a percent sign is one conversion if its letter is
the letter of one. -/
theorem pieces_of_parse? {spec : List Char} {zero : Bool} {width : Nat} {letter : Char}
    {c : Conversion} (h : parse? spec = some ⟨zero, width, some letter⟩)
    (hc : Conversion.ofChar? letter = some c) :
    pieces ('%' :: spec) = [.conversion zero width c] := by
  have completed : complete zero width letter [] = [.conversion zero width c] := by
    rw [complete, hc]
  have ⟨digit, percent⟩ : decimalDigit? letter = none ∧ letter ≠ '%' := by
    rw [Conversion.ofChar?.eq_def] at hc
    split at hc <;> first | decide | cases hc
  obtain ⟨rfl, sized⟩ := take_of_parse? h
  rw [← completed, pieces, piecesFrom, if_pos rfl]
  rw [takeZero.eq_def] at sized ⊢
  split at sized
  · exact piecesFrom_flagged sized digit
  · next unflagged =>
    cases spec with
    | nil => cases sized
    | cons a as =>
      have zero : a ≠ '0' := fun ha => unflagged as (ha ▸ rfl)
      have notPercent : a ≠ '%' := by
        rintro rfl
        simp [takeWidth, decimalDigit?, percent.symm] at sized
      rw [piecesFrom_opened notPercent zero]
      exact piecesFrom_flagged sized digit

theorem format_of_pieces {fmt : List Char} {zero : Bool} {width : Nat} {style : Numeral.Style}
    (hfmt : pieces fmt = [.conversion zero width (.int style)]) {operand v : Value}
    (hitem : itemsOf operand = [v]) {n : Int64} (hv : v.asInt? = some n) (h : Heap) :
    format h fmt operand = .ok (Numeral.render style zero width n) := by
  simp [format, hfmt, hitem, render, renderItem, hv, Except.map]

end Percent

-- ---------------------------------------------------------------------------
-- Every written form
-- ---------------------------------------------------------------------------

theorem Action.runOn_callHex {v : Value} {n : Int64} (hv : v.asInt? = some n) (s : Session) :
    (call (.builtin .hex) ⟨[v], ∅⟩).runOn s = (newChars (Numeral.hex n.toInt)).runOn s := by
  have sole : (Arguments.intOf v : Except Cause Int64) = .ok n := by rw [Arguments.intOf, hv]
  change ((liftM (Arguments.intOf v) : Action Int64) >>= fun n =>
    newChars (Numeral.hex n.toInt)).runOn s = _
  exact runOn_bind_of_ok (runOn_lift_of_ok sole s) _

theorem Heap.repr_int (h : Heap) (tag : Tag) (n : Int64) :
    h.repr (.int tag n) = Numeral.decimal n.toInt := by
  rw [repr, Value.reprWith, reprDepth, reprStored]
  · exact List.append_nil _
  all_goals simp

/-- Every word is read back from what a specification or a conversion makes of
it, in the radix that its letter names, from its representation and from its
hexadecimal form. -/
theorem Numeral.text_round_trip (n : Int64) :
    (∀ spec text, FormatSpec.formatInt n spec = .ok text →
      ∃ parsed, FormatSpec.parse? spec = some parsed ∧ parse parsed.radix text = .ok n) ∧
    (∀ h fmt zero width style operand v,
      Percent.pieces fmt = [.conversion zero width (.int style)] →
      Percent.itemsOf operand = [v] → v.asInt? = some n →
      ∃ text, Percent.format h fmt operand = .ok text ∧ parse style.radix text = .ok n) ∧
    (∀ (h : Heap) tag, parse 10 (h.repr (.int tag n)) = .ok n ∧
      parse 0 (h.repr (.int tag n)) = .ok n) ∧
    ∀ tag s, ∃ made text s', (Action.call (.builtin .hex) ⟨[.int tag n], ∅⟩).runOn s =
        (.ok (.str made text), s') ∧
      parse 16 text.chars = .ok n ∧ parse 0 text.chars = .ok n := by
  refine ⟨?_, ?_, ?_, ?_⟩
  · intro spec text written
    obtain ⟨parsed, style, known, same, rfl⟩ := FormatSpec.render_of_formatInt written
    exact ⟨parsed, known, same ▸ parse_render ..⟩
  · intro h fmt zero width style operand v hfmt hitem hv
    exact ⟨_, Percent.format_of_pieces hfmt hitem hv h, parse_render ..⟩
  · intro h tag
    rw [h.repr_int]
    exact ⟨parse_decimal n (.inl rfl), parse_decimal n (.inr rfl)⟩
  · intro tag s
    obtain ⟨made, fresh, run⟩ := Action.runOn_newChars (hex n.toInt) s
    refine ⟨made, .ofChars (hex n.toInt), _, (Action.runOn_callHex rfl s).trans run,
      ?_, ?_⟩
    · exact parse_hex n (.inl rfl)
    · exact parse_hex n (.inr rfl)

/-- The least word, which has no negative, in capitals with zeros before them. -/
theorem Numeral.text_round_trip_minValue :
    (∃ text, Percent.format .empty "%05X".toList (.int 0 Int64.minValue) = .ok text ∧
      parse 16 text = .ok Int64.minValue) ∧
    ∃ parsed, FormatSpec.parse? "09b".toList = some parsed ∧
      parse parsed.radix "-00000101".toList = .ok (-5) :=
  ⟨(text_round_trip Int64.minValue).2.1 .empty _ true 5 .upperHex _ _
      (Percent.pieces_of_parse? (show FormatSpec.parse? "05X".toList = _ from rfl) rfl) rfl rfl,
    (text_round_trip (-5)).1 "09b".toList _ rfl⟩

end ObjectModel
