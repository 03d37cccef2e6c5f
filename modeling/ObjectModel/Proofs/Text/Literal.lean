import Mathlib.Logic.Function.Basic
import Mathlib.Tactic.IntervalCases
import ObjectModel.Heap.Repr
import ObjectModel.Proofs.Encoding.RoundTrip
import ObjectModel.Proofs.Numeral.Reading

/-!
# Reading literals

A literal is read from its quote up to the first occurrence of the same quote
that is not escaped. Between the two every character stands for itself, but for
a backslash, which starts an escape.

Main statement: `reads_back`. Reading the literal of a text or of a byte sequence
uses it up and gives the content, whatever follows. Each character of the content
is read back by itself, whichever quote was picked, so no two characters that
meet can be taken for something else.
-/

namespace ObjectModel

namespace Literal

-- ---------------------------------------------------------------------------
-- Reading
-- ---------------------------------------------------------------------------

/-- The character that a letter stands for behind a backslash. -/
def unescape? (c : Char) : Option Char :=
  if c = '\\' ∨ c = '\'' ∨ c = '"' then some c
  else if c = 'n' then some '\n'
  else if c = 'r' then some '\r'
  else if c = 't' then some '\t'
  else none

def hexDigit? (c : Char) : Option Nat := (Numeral.digit? c).filter (· < 16)

/-- The character whose number two hexadecimal digits spell. -/
def numbered? (high low : Char) : Option Char :=
  (hexDigit? high).bind fun m => (hexDigit? low).map fun n => Char.ofNat (16 * m + n)

/-- Puts a character in front of the content that is read. -/
def prepend (c : Char) (r : List Char × List Char) : List Char × List Char := (c :: r.1, r.2)

/-- The content up to the closing quote, and what follows the quote. -/
def readBody? (quote : Char) : List Char → Option (List Char × List Char)
  | '\\' :: 'x' :: high :: low :: cs =>
    (numbered? high low).bind fun c => (readBody? quote cs).map (prepend c)
  | '\\' :: c :: cs => (unescape? c).bind fun d => (readBody? quote cs).map (prepend d)
  | c :: cs => if c = quote then some ([], cs) else (readBody? quote cs).map (prepend c)
  | [] => none

/-- The characters that enclose a literal. -/
def IsQuote (c : Char) : Prop := c = '\'' ∨ c = '"'

instance (c : Char) : Decidable (IsQuote c) := inferInstanceAs (Decidable (_ ∨ _))

/-- The content of the literal that a text starts with, and the rest of the text. -/
def read? : List Char → Option (List Char × List Char)
  | quote :: cs => if IsQuote quote then readBody? quote cs else none
  | [] => none

/-- A literal of bytes: a `b`, and a literal whose characters are bytes by number. -/
def readBytes? : List Char → Option (List UInt8 × List Char)
  | 'b' :: cs =>
    (read? cs).bind fun r =>
      if r.1.all (·.toNat < 256) then some (r.1.map fun c => UInt8.ofNat c.toNat, r.2) else none
  | _ => none

/-- The characters of category Cc. -/
def IsControl (c : Char) : Prop := c.toNat < 0x20 ∨ (0x7F ≤ c.toNat ∧ c.toNat ≤ 0x9F)

def IsPrintableAscii (c : Char) : Prop := 0x20 ≤ c.toNat ∧ c.toNat ≤ 0x7E

instance (c : Char) : Decidable (IsPrintableAscii c) := inferInstanceAs (Decidable (_ ∧ _))

-- ---------------------------------------------------------------------------
-- One character
-- ---------------------------------------------------------------------------

/-- A character inside a literal; it is told whether it is spelled by number. -/
def spell (numbered : Bool) (quote c : Char) : List Char :=
  if c = '\\' then ['\\', '\\']
  else if c = '\n' then ['\\', 'n']
  else if c = '\r' then ['\\', 'r']
  else if c = '\t' then ['\\', 't']
  else if c = quote then ['\\', c]
  else if numbered then '\\' :: 'x' :: hexByte c.toNat
  else [c]

theorem escapeByte_eq (quote : Char) (b : UInt8) :
    escapeByte quote b = spell (b < 0x20 || 0x7F ≤ b) quote (Encoding.charOfByte b) := by
  rw [spell, Encoding.toNat_charOfByte]
  rfl

variable {quote c : Char} {numbered : Bool} {n : Nat} {tail : List Char}

theorem numbered?_hexByte (h : n < 256) :
    numbered? (Nat.digitChar (n / 16)) (Nat.digitChar (n % 16)) = some (Char.ofNat n) := by
  have value {d : Nat} (hd : d < 16) : hexDigit? d.digitChar = some d := by
    rw [hexDigit?, Numeral.digit?_digitChar hd, Option.filter_some, decide_eq_true hd, if_pos rfl]
  rw [numbered?, value (by omega), value (by omega), Option.bind_some, Option.map_some,
    Nat.div_add_mod]

theorem readBody?_plain (hc : c ≠ '\\') (hq : c ≠ quote) (cs : List Char) :
    readBody? quote (c :: cs) = (readBody? quote cs).map (prepend c) := by
  rw [readBody?.eq_def]
  split <;> simp_all

theorem readBody?_escaped {d : Char} (h : unescape? c = some d) (cs : List Char) :
    readBody? quote ('\\' :: c :: cs) = (readBody? quote cs).map (prepend d) := by
  rw [readBody?, h, Option.bind_some]
  rintro high low rest ⟨⟩
  cases h

/-- A character is read back, and the rest after it. -/
theorem readBody?_spell (hq : IsQuote quote) (small : numbered = true → c.toNat < 256)
    (tail : List Char) :
    readBody? quote (spell numbered quote c ++ tail) = (readBody? quote tail).map (prepend c) := by
  rw [spell]
  split_ifs with backslash newline carriage tab isQuote byNumber
  · subst backslash
    exact readBody?_escaped rfl tail
  · subst newline
    exact readBody?_escaped rfl tail
  · subst carriage
    exact readBody?_escaped rfl tail
  · subst tab
    exact readBody?_escaped rfl tail
  · subst isQuote
    refine readBody?_escaped ?_ tail
    rcases hq with rfl | rfl <;> rfl
  · have read := numbered?_hexByte (small byNumber)
    rw [Char.ofNat_toNat] at read
    simp only [hexByte, List.cons_append, List.nil_append, readBody?, read, Option.bind_some]
  · exact readBody?_plain backslash isQuote tail

theorem readBody?_flatMap {α : Type} {spelled : α → List Char} {char : α → Char}
    (one : ∀ x tail, readBody? quote (spelled x ++ tail) =
      (readBody? quote tail).map (prepend (char x)))
    (hq : IsQuote quote) (xs : List α) (rest : List Char) :
    readBody? quote (xs.flatMap spelled ++ quote :: rest) = some (xs.map char, rest) := by
  induction xs with
  | nil => rcases hq with rfl | rfl <;> simp [readBody?]
  | cons x xs ih => simp [one, ih, prepend]

theorem isQuote_pickQuote (single double : Bool) : IsQuote (pickQuote single double) := by
  cases single <;> cases double <;> decide

-- ---------------------------------------------------------------------------
-- What stands in a literal
-- ---------------------------------------------------------------------------

theorem isPrintableAscii_digitChar {d : Nat} (h : d < 16) : IsPrintableAscii d.digitChar := by
  interval_cases d <;> decide

/-- Only a character that is not spelled by number may stand for itself. -/
theorem printable_or_plain_of_mem_spell (hq : IsQuote quote)
    (small : numbered = true → c.toNat < 256) {x : Char} (hx : x ∈ spell numbered quote c) :
    IsPrintableAscii x ∨ x = c ∧ numbered = false := by
  have pair {a b : Char} (ha : IsPrintableAscii a) (hb : IsPrintableAscii b) (h : x ∈ [a, b]) :
      IsPrintableAscii x := by
    simp only [List.mem_cons, List.not_mem_nil, or_false] at h
    rcases h with rfl | rfl
    · exact ha
    · exact hb
  rw [spell] at hx
  split_ifs at hx with backslash newline carriage tab isQuote byNumber
  · exact .inl (pair (by decide) (by decide) hx)
  · exact .inl (pair (by decide) (by decide) hx)
  · exact .inl (pair (by decide) (by decide) hx)
  · exact .inl (pair (by decide) (by decide) hx)
  · subst isQuote
    exact .inl (pair (by decide) (by rcases hq with rfl | rfl <;> decide) hx)
  · have bound := small byNumber
    rw [hexByte] at hx
    rcases List.mem_cons.1 hx with rfl | hx
    · exact .inl (by decide)
    · rcases List.mem_cons.1 hx with rfl | hx
      · exact .inl (by decide)
      · exact .inl (pair (isPrintableAscii_digitChar (by omega))
          (isPrintableAscii_digitChar (by omega)) hx)
  · exact .inr ⟨List.mem_singleton.1 hx, by simpa using byNumber⟩

theorem IsPrintableAscii.not_isControl (h : IsPrintableAscii c) : ¬ IsControl c := by
  obtain ⟨low, high⟩ := h
  rintro (control | control) <;> omega

theorem lt_of_needsNumber (h : needsNumber c = true) : c.toNat < 256 := by
  simp only [needsNumber, Bool.or_eq_true, Bool.and_eq_true, decide_eq_true_eq, beq_iff_eq] at h
  omega

theorem not_isControl_of_needsNumber (h : needsNumber c = false) : ¬ IsControl c := by
  simp only [needsNumber, Bool.or_eq_false_iff, Bool.and_eq_false_iff, decide_eq_false_iff_not,
    beq_eq_false_iff_ne] at h
  rintro (control | control) <;> omega

theorem IsQuote.isPrintableAscii (h : IsQuote c) : IsPrintableAscii c := by
  rcases h with rfl | rfl <;> decide

-- ---------------------------------------------------------------------------
-- Texts and bytes
-- ---------------------------------------------------------------------------

theorem read?_quoted {α : Type} {spelled : α → List Char} {char : α → Char}
    (hq : IsQuote quote)
    (one : ∀ x tail, readBody? quote (spelled x ++ tail) =
      (readBody? quote tail).map (prepend (char x)))
    (xs : List α) (rest : List Char) :
    read? (quote :: xs.flatMap spelled ++ [quote] ++ rest) = some (xs.map char, rest) := by
  rw [List.append_assoc, List.cons_append, read?, if_pos hq]
  exact readBody?_flatMap one hq xs rest

theorem read?_ofText (cs rest : List Char) : read? (ofText cs ++ rest) = some (cs, rest) := by
  have hq := isQuote_pickQuote (cs.contains '\'') (cs.contains '"')
  have read := read?_quoted hq (fun c => readBody?_spell hq (lt_of_needsNumber (c := c))) cs rest
  rwa [List.map_id'] at read

theorem lt_of_charOfByte (b : UInt8) : (Encoding.charOfByte b).toNat < 256 := by
  rw [Encoding.toNat_charOfByte]
  exact b.toNat_lt

theorem readBody?_escapeByte (hq : IsQuote quote) (b : UInt8) (tail : List Char) :
    readBody? quote (escapeByte quote b ++ tail) =
      (readBody? quote tail).map (prepend (Encoding.charOfByte b)) := by
  rw [escapeByte_eq]
  exact readBody?_spell hq (fun _ => lt_of_charOfByte b) tail

theorem readBytes?_ofBytes (data : List UInt8) (rest : List Char) :
    readBytes? (ofBytes data ++ rest) = some (data, rest) := by
  have hq := isQuote_pickQuote (data.contains 0x27) (data.contains 0x22)
  have read := read?_quoted hq (readBody?_escapeByte hq) data rest
  have small : (data.map Encoding.charOfByte).all (·.toNat < 256) = true := by
    simp [lt_of_charOfByte]
  rw [ofBytes, List.cons_append, List.cons_append, readBytes?, read,
    Option.bind_some, if_pos small, Encoding.map_ofNat_charOfByte]

theorem not_isControl_of_mem_ofText (cs : List Char) {x : Char} (hx : x ∈ ofText cs) :
    ¬ IsControl x := by
  have hq := isQuote_pickQuote (cs.contains '\'') (cs.contains '"')
  rw [ofText, List.mem_append, List.mem_cons, List.mem_flatMap, List.mem_singleton] at hx
  rcases hx with (rfl | ⟨c, -, hx⟩) | rfl
  · exact hq.isPrintableAscii.not_isControl
  · rcases printable_or_plain_of_mem_spell hq lt_of_needsNumber hx with printable | ⟨rfl, plain⟩
    · exact printable.not_isControl
    · exact not_isControl_of_needsNumber plain
  · exact hq.isPrintableAscii.not_isControl

theorem isPrintableAscii_of_mem_ofBytes (data : List UInt8) {x : Char} (hx : x ∈ ofBytes data) :
    IsPrintableAscii x := by
  have hq := isQuote_pickQuote (data.contains 0x27) (data.contains 0x22)
  rw [ofBytes, List.mem_append, List.mem_cons, List.mem_cons, List.mem_flatMap,
    List.mem_singleton] at hx
  rcases hx with (rfl | rfl | ⟨b, -, hx⟩) | rfl
  · decide
  · exact hq.isPrintableAscii
  · rw [escapeByte_eq] at hx
    rcases printable_or_plain_of_mem_spell hq (fun _ => lt_of_charOfByte b) hx with
      printable | ⟨rfl, plain⟩
    · exact printable
    · rw [Bool.or_eq_false_iff, decide_eq_false_iff_not, decide_eq_false_iff_not,
        UInt8.lt_iff_toNat_lt, UInt8.le_iff_toNat_le] at plain
      rw [IsPrintableAscii, Encoding.toNat_charOfByte]
      have : (0x20 : UInt8).toNat = 0x20 := rfl
      have : (0x7F : UInt8).toNat = 0x7F := rfl
      omega
  · exact hq.isPrintableAscii

end Literal

theorem Heap.repr_str (h : Heap) (tag : Tag) (t : Text) :
    h.repr (.str tag t) = Literal.ofText t.chars := by
  rw [repr, Value.reprWith, reprDepth, reprStored]
  · exact List.append_nil _
  all_goals simp

theorem Heap.repr_bytes (h : Heap) (tag : Tag) (data : List UInt8) :
    h.repr (.bytes tag data) = Literal.ofBytes data := by
  rw [repr, Value.reprWith, reprDepth, reprStored]
  · exact List.append_nil _
  all_goals simp

/-- The literal of a text is read back to its end as the text, holds no control
character and belongs to no other text. So does the literal of a byte sequence,
which is printable ASCII. The representations of texts and of bytes are these
literals. -/
theorem Literal.reads_back :
    (∀ cs rest, read? (ofText cs ++ rest) = some (cs, rest)) ∧
    (∀ cs, ∀ c ∈ ofText cs, ¬ IsControl c) ∧
    Function.Injective ofText ∧
    (∀ data rest, readBytes? (ofBytes data ++ rest) = some (data, rest)) ∧
    (∀ data, ∀ c ∈ ofBytes data, IsPrintableAscii c ∧ ¬ IsControl c) ∧
    Function.Injective ofBytes ∧
    ∀ (h : Heap) tag, (∀ t, h.repr (.str tag t) = ofText t.chars) ∧
      ∀ data, h.repr (.bytes tag data) = ofBytes data := by
  refine ⟨read?_ofText, fun cs c => not_isControl_of_mem_ofText cs, ?_, readBytes?_ofBytes, ?_, ?_,
    fun h tag => ⟨h.repr_str tag, h.repr_bytes tag⟩⟩
  · intro cs ds same
    have read := read?_ofText cs []
    rw [same, read?_ofText] at read
    simpa using read.symm
  · intro data c hc
    have printable := isPrintableAscii_of_mem_ofBytes data hc
    exact ⟨printable, printable.not_isControl⟩
  · intro data data' same
    have read := readBytes?_ofBytes data []
    rw [same, readBytes?_ofBytes] at read
    simpa using read.symm

/-- Both quotes, a backslash and a letter that look like escapes where they meet. -/
example : Literal.ofText "'\"\\x41".toList = "'\\'\"\\\\x41'".toList := by decide

end ObjectModel
