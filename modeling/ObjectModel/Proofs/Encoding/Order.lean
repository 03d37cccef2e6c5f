import Mathlib.Data.List.Forall2
import ObjectModel.Proofs.Encoding.Utf8

/-!
# UTF-8 keeps the order of characters

Byte sequences are compared by their first different bytes. Of two encodings these lie in the
first different characters, and order them by their numbers: a larger lead means a larger
number, and after the same lead the bytes are the digits of a number, the highest first.

Main statement: `compare_encode`.
-/

namespace ObjectModel.Utf8

open String (utf8EncodeChar)

-- ---------------------------------------------------------------------------
-- Sequences of bytes
-- ---------------------------------------------------------------------------

section

variable {x y : UInt8}

theorem compare_cons_of_lt (less : x.toNat < y.toNat) (xs ys : List UInt8) :
    compare (x :: xs) (y :: ys) = .lt := by
  rw [List.compare_cons_cons, Std.compare_eq_lt.2 (UInt8.lt_iff_toNat_lt.2 less)]
  rfl

theorem compare_cons_of_eq (same : x.toNat = y.toNat) (xs ys : List UInt8) :
    compare (x :: xs) (y :: ys) = compare xs ys := by
  have self : compare y y = .eq := Std.ReflCmp.compare_self
  rw [List.compare_cons_cons, UInt8.toNat_inj.1 same, self]
  rfl

theorem compare_append_left (front xs ys : List UInt8) :
    compare (front ++ xs) (front ++ ys) = compare xs ys := by
  induction front with
  | nil => rfl
  | cons b front ih => rw [List.cons_append, List.cons_append, compare_cons_of_eq rfl, ih]

end

-- ---------------------------------------------------------------------------
-- One character
-- ---------------------------------------------------------------------------

theorem isContinuation_of_mayFollow {lead b : UInt8} (h : mayFollow lead b = true) :
    isContinuation b = true :=
  isContinuation_iff.2 (mayFollow_iff.1 h).1

/-- What a number becomes by the digits that follow. -/
def extend (n : Nat) (digits : List UInt8) : Nat := digits.foldl (fun n b => n * 64 + payload b) n

/-- Of two numbers with as many digits to follow, the smaller one starts with less or goes on
with bytes that come first. -/
theorem compare_digits {bs bs' : List UInt8} {m n : Nat}
    (digits : List.Forall₂ (fun b b' => isContinuation b = true ∧ isContinuation b' = true) bs bs')
    (less : extend m bs < extend n bs') (rest rest' : List UInt8) :
    m < n ∨ m = n ∧ compare (bs ++ rest) (bs' ++ rest') = .lt := by
  induction digits generalizing m n with
  | nil => exact .inl less
  | @cons b b' bs bs' digit _ ih =>
    simp only [isContinuation_iff] at digit
    rw [List.cons_append, List.cons_append]
    obtain front | ⟨front, last⟩ := ih less <;> simp only [payload] at front
    · rcases Nat.lt_or_ge m n with start | start
      · exact .inl start
      · exact .inr ⟨by omega, compare_cons_of_lt (by omega) ..⟩
    · exact .inr ⟨by omega, (compare_cons_of_eq (by omega) ..).trans last⟩

variable {a a' : UInt8} {bs bs' rest rest' : List UInt8} {m n : Nat}

/-- The lead tells the size of the number: none is spelled with more bytes than it needs. -/
theorem Spells.bounds (h : Spells a bs n rest) :
    a.toNat < 0x80 ∧ n < 0x80 ∨
    (0xC2 ≤ a.toNat ∧ a.toNat < 0xE0) ∧ 0x80 ≤ n ∧ n < 0x800 ∨
    (0xE0 ≤ a.toNat ∧ a.toNat < 0xF0) ∧ 0x800 ≤ n ∧ n < 0x10000 ∨
    (0xF0 ≤ a.toNat ∧ a.toNat < 0xF5) ∧ 0x10000 ≤ n := by
  cases h with
  | one ha => omega
  | two ha hb =>
    simp only [isContinuation_iff, payload] at *
    omega
  | three ha hb hc =>
    simp only [isContinuation_iff, mayFollow_iff, payload] at *
    omega
  | four ha hb hc hd =>
    simp only [isContinuation_iff, mayFollow_iff, payload] at *
    omega

theorem Spells.compare_lt (h : Spells a bs m rest) (h' : Spells a' bs' n rest') (less : m < n) :
    compare (a :: bs) (a' :: bs') = .lt := by
  have low := h.bounds
  have high := h'.bounds
  rcases Nat.lt_or_ge a.toNat a'.toNat with lead | lead
  · exact compare_cons_of_lt lead ..
  -- Unless the first lead is less, the two are spelled with as many bytes.
  cases h with
  | one ha => cases h' <;> omega
  | two ha hb =>
    cases h' with
    | two ha' hb' =>
      obtain start | ⟨start, last⟩ := compare_digits (.cons ⟨hb, hb'⟩ .nil) less rest rest'
      · omega
      · exact (compare_cons_of_eq (by omega) ..).trans last
    | _ => omega
  | three ha hb hc =>
    cases h' with
    | three ha' hb' hc' =>
      have second := And.intro (isContinuation_of_mayFollow hb) (isContinuation_of_mayFollow hb')
      obtain start | ⟨start, last⟩ :=
        compare_digits (.cons second (.cons ⟨hc, hc'⟩ .nil)) less rest rest'
      · omega
      · exact (compare_cons_of_eq (by omega) ..).trans last
    | _ => omega
  | four ha hb hc hd =>
    cases h' with
    | four ha' hb' hc' hd' =>
      have second := And.intro (isContinuation_of_mayFollow hb) (isContinuation_of_mayFollow hb')
      obtain start | ⟨start, last⟩ :=
        compare_digits (.cons second (.cons ⟨hc, hc'⟩ (.cons ⟨hd, hd'⟩ .nil))) less rest rest'
      · omega
      · exact (compare_cons_of_eq (by omega) ..).trans last
    | _ => omega

/-- Different characters decide, whatever follows them. -/
theorem compare_encodeChar {c d : Char} (less : c.toNat < d.toNat) (xs ys : List UInt8) :
    compare (utf8EncodeChar c ++ xs) (utf8EncodeChar d ++ ys) = .lt := by
  obtain ⟨a, bs, hc, spells⟩ := spells_encodeChar c xs
  obtain ⟨a', bs', hd, spells'⟩ := spells_encodeChar d ys
  rw [hc, hd]
  exact spells.compare_lt spells' less

-- ---------------------------------------------------------------------------
-- Sequences of characters
-- ---------------------------------------------------------------------------

/-- The encodings are ordered as the numbers of the characters are. -/
theorem compare_encode (cs ds : List Char) :
    compare (encode cs) (encode ds) = compare (cs.map Char.toNat) (ds.map Char.toNat) := by
  induction cs generalizing ds with
  | nil =>
    cases ds with
    | nil => rfl
    | cons d ds =>
      obtain ⟨a, bs, encoded, -⟩ := spells_encodeChar d (encode ds)
      rw [encode_cons, encoded]
      rfl
  | cons c cs ih =>
    cases ds with
    | nil =>
      obtain ⟨a, bs, encoded, -⟩ := spells_encodeChar c (encode cs)
      rw [encode_cons, encoded]
      rfl
    | cons d ds =>
      rw [encode_cons, encode_cons, List.map_cons, List.map_cons, List.compare_cons_cons]
      rcases Nat.lt_trichotomy c.toNat d.toNat with less | same | greater
      · rw [compare_encodeChar less, Nat.compare_eq_lt.2 less]
        rfl
      · rw [Char.toNat_inj.1 same, compare_append_left, ih, Nat.compare_eq_eq.2 rfl]
        rfl
      · rw [Std.OrientedOrd.eq_swap, compare_encodeChar greater, Nat.compare_eq_gt.2 greater]
        rfl

end ObjectModel.Utf8
