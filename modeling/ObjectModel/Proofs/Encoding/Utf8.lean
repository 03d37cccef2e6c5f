import ObjectModel.Utf8

/-!
# UTF-8 is decoded as it is encoded

The strict decoder reads back what the encoder writes, and reads nothing else.
What follows the encoding of some characters is the encoding of others, and a
byte below `0x80` is a character of its own.

Main statements: `decode_eq_ok_iff`, `decodeLossy_encode`, `exists_of_encode_eq_append`
and `exists_of_encode_eq_cons`.
-/

namespace ObjectModel.Utf8

open String (utf8EncodeChar)

-- ---------------------------------------------------------------------------
-- Classes of bytes, by their numbers
-- ---------------------------------------------------------------------------

theorem leadWidth_eq (b : UInt8) : leadWidth b =
    if b.toNat < 0x80 then 1 else if b.toNat < 0xC2 then 0 else if b.toNat < 0xE0 then 2
    else if b.toNat < 0xF0 then 3 else if b.toNat < 0xF5 then 4 else 0 := by
  simp [leadWidth, UInt8.lt_iff_toNat_lt]

theorem isContinuation_iff {b : UInt8} :
    isContinuation b = true ↔ 0x80 ≤ b.toNat ∧ b.toNat ≤ 0xBF := by
  simp [isContinuation, UInt8.le_iff_toNat_le]

theorem mayFollow_iff {lead b : UInt8} : mayFollow lead b = true ↔
    (0x80 ≤ b.toNat ∧ b.toNat ≤ 0xBF) ∧ (lead.toNat = 0xE0 → 0xA0 ≤ b.toNat) ∧
    (lead.toNat = 0xED → b.toNat ≤ 0x9F) ∧ (lead.toNat = 0xF0 → 0x90 ≤ b.toNat) ∧
    (lead.toNat = 0xF4 → b.toNat ≤ 0x8F) := by
  have hlead : (lead = 0xE0 ↔ lead.toNat = 0xE0) ∧ (lead = 0xED ↔ lead.toNat = 0xED) ∧
      (lead = 0xF0 ↔ lead.toNat = 0xF0) ∧ (lead = 0xF4 ↔ lead.toNat = 0xF4) := by
    simp [← UInt8.toNat_inj]
  simp only [mayFollow, isContinuation, hlead, UInt8.le_iff_toNat_le, Bool.and_eq_true,
    decide_eq_true_eq, apply_ite (· = true), UInt8.reduceToNat]
  repeat' split
  all_goals omega

-- ---------------------------------------------------------------------------
-- One character
-- ---------------------------------------------------------------------------

/-- A lead byte and those after it spell a number; what is left follows. -/
inductive Spells : UInt8 → List UInt8 → Nat → List UInt8 → Prop
  | one (ha : a.toNat < 0x80) : Spells a rest a.toNat rest
  | two (ha : 0xC2 ≤ a.toNat ∧ a.toNat < 0xE0) (hb : isContinuation b = true) :
    Spells a (b :: rest) ((a.toNat % 32) * 64 + payload b) rest
  | three (ha : 0xE0 ≤ a.toNat ∧ a.toNat < 0xF0) (hb : mayFollow a b = true)
    (hc : isContinuation c = true) :
    Spells a (b :: c :: rest) (((a.toNat % 16) * 64 + payload b) * 64 + payload c) rest
  | four (ha : 0xF0 ≤ a.toNat ∧ a.toNat < 0xF5) (hb : mayFollow a b = true)
    (hc : isContinuation c = true) (hd : isContinuation d = true) :
    Spells a (b :: c :: d :: rest)
      ((((a.toNat % 8) * 64 + payload b) * 64 + payload c) * 64 + payload d) rest

variable {a : UInt8} {bs rest : List UInt8} {n : Nat}

theorem step_of_spells (h : Spells a bs n rest) : step a bs = .char (Char.ofNat n) rest := by
  cases h with
  | one ha => simp [step, leadWidth_eq, ha]
  | two ha hb =>
    have width : leadWidth a = 2 := by
      rw [leadWidth_eq, if_neg (by omega), if_neg (by omega), if_pos ha.2]
    simp [step, width, hb]
  | three ha hb hc =>
    have width : leadWidth a = 3 := by
      rw [leadWidth_eq, if_neg (by omega), if_neg (by omega), if_neg (by omega), if_pos ha.2]
    simp [step, width, hb, hc]
  | four ha hb hc hd =>
    have width : leadWidth a = 4 := by
      rw [leadWidth_eq, if_neg (by omega), if_neg (by omega), if_neg (by omega),
        if_neg (by omega), if_pos ha.2]
    simp [step, width, hb, hc, hd]

theorem bounds_of_leadWidth (a : UInt8) :
    (leadWidth a = 1 → a.toNat < 0x80) ∧
    (leadWidth a = 2 → 0xC2 ≤ a.toNat ∧ a.toNat < 0xE0) ∧
    (leadWidth a = 3 → 0xE0 ≤ a.toNat ∧ a.toNat < 0xF0) ∧
    (leadWidth a = 4 → 0xF0 ≤ a.toNat ∧ a.toNat < 0xF5) := by
  rw [leadWidth_eq]
  repeat' split
  all_goals omega

theorem spells_of_step {c : Char} (h : step a bs = .char c rest) :
    ∃ n, Spells a bs n rest ∧ c = Char.ofNat n := by
  obtain ⟨one, two, three, four⟩ := bounds_of_leadWidth a
  unfold step at h
  split at h
  · next width =>
    cases h
    exact ⟨_, .one (one width), rfl⟩
  · next width =>
    split at h
    · next hb =>
      cases h
      exact ⟨_, .two (two width) hb, rfl⟩
    · cases h
  · next width =>
    split at h
    · next hb =>
      split at h
      · split at h
        · next hc =>
          cases h
          exact ⟨_, .three (three width) hb hc, rfl⟩
        · cases h
      · cases h
    · cases h
  · next width =>
    split at h
    · next hb =>
      split at h
      · split at h
        · next hc =>
          split at h
          · split at h
            · next hd =>
              cases h
              exact ⟨_, .four (four width) hb hc hd, rfl⟩
            · cases h
          · cases h
        · cases h
      · cases h
    · cases h
  · cases h

theorem toNat_ofNat {n : Nat} (hn : n.isValidChar) : (Char.ofNat n).toNat = n := by
  rw [Char.ofNat, dif_pos hn]
  rfl

theorem encodeChar_ofNat {n : Nat} (hn : n.isValidChar) : utf8EncodeChar (Char.ofNat n) =
    if n < 0x80 then [UInt8.ofNat n]
    else if n < 0x800 then [UInt8.ofNat (n / 64 + 0xC0), UInt8.ofNat (n % 64 + 0x80)]
    else if n < 0x10000 then
      [UInt8.ofNat (n / 4096 + 0xE0), UInt8.ofNat (n / 64 % 64 + 0x80),
        UInt8.ofNat (n % 64 + 0x80)]
    else
      [UInt8.ofNat (n / 262144 + 0xF0), UInt8.ofNat (n / 4096 % 64 + 0x80),
        UInt8.ofNat (n / 64 % 64 + 0x80), UInt8.ofNat (n % 64 + 0x80)] := by
  have hv : (Char.ofNat n).val.toNat = n := toNat_ofNat hn
  have bound : n < 0x110000 := by
    rcases hn with h | h <;> omega
  simp only [utf8EncodeChar, hv, ← Nat.lt_succ_iff]
  split
  · rfl
  · split
    · rw [Nat.mod_eq_of_lt (a := n / 64) (by omega)]
    · split
      · rw [Nat.mod_eq_of_lt (a := n / 4096) (by omega)]
      · rw [Nat.mod_eq_of_lt (a := n / 262144) (by omega)]

theorem ofNat_eq {b : UInt8} {m : Nat} (h : m = b.toNat) : UInt8.ofNat m = b := by
  rw [h, UInt8.ofNat_toNat]

/-- What is spelled is the number of a character, and the character is encoded
as it was spelled. -/
theorem Spells.encodeChar (h : Spells a bs n rest) :
    utf8EncodeChar (Char.ofNat n) ++ rest = a :: bs := by
  cases h with
  | one ha =>
    rw [encodeChar_ofNat (.inl (by omega)), if_pos ha, UInt8.ofNat_toNat, List.singleton_append]
  | @two b _ _ ha hb =>
    rw [isContinuation_iff] at hb
    simp only [payload] at *
    generalize hn : a.toNat % 32 * 64 + b.toNat % 64 = n
    rw [encodeChar_ofNat (.inl (by omega)), if_neg (by omega), if_pos (by omega),
      ofNat_eq (b := a) (by omega), ofNat_eq (b := b) (by omega)]
    rfl
  | @three _ b c _ ha hb hc =>
    rw [isContinuation_iff] at hc
    rw [mayFollow_iff] at hb
    simp only [payload] at *
    generalize hn : (a.toNat % 16 * 64 + b.toNat % 64) * 64 + c.toNat % 64 = n
    have valid : n.isValidChar := by
      unfold Nat.isValidChar
      omega
    rw [encodeChar_ofNat valid, if_neg (by omega), if_neg (by omega), if_pos (by omega),
      ofNat_eq (b := a) (by omega), ofNat_eq (b := b) (by omega), ofNat_eq (b := c) (by omega)]
    rfl
  | @four _ b c d _ ha hb hc hd =>
    rw [isContinuation_iff] at hc hd
    rw [mayFollow_iff] at hb
    simp only [payload] at *
    generalize hn :
      ((a.toNat % 8 * 64 + b.toNat % 64) * 64 + c.toNat % 64) * 64 + d.toNat % 64 = n
    have valid : n.isValidChar := by
      unfold Nat.isValidChar
      omega
    rw [encodeChar_ofNat valid, if_neg (by omega), if_neg (by omega), if_neg (by omega),
      ofNat_eq (b := a) (by omega), ofNat_eq (b := b) (by omega), ofNat_eq (b := c) (by omega),
      ofNat_eq (b := d) (by omega)]
    rfl

theorem Spells.of_eq {m : Nat} (h : Spells a bs m rest) (hn : m = n) : Spells a bs n rest := hn ▸ h

/-- A character is encoded as a spelling of its number. -/
theorem spells_encodeChar (c : Char) (rest : List UInt8) :
    ∃ a bs, utf8EncodeChar c ++ rest = a :: bs ∧ Spells a bs c.toNat rest := by
  have valid : c.toNat.isValidChar := c.valid
  have encoded := encodeChar_ofNat valid
  rw [Char.ofNat_toNat] at encoded
  rw [encoded]
  generalize c.toNat = n at valid
  have bounds : n < 0xD800 ∨ 0xDFFF < n ∧ n < 0x110000 := valid
  have number {m : Nat} (h : m < 256) : (UInt8.ofNat m).toNat = m := UInt8.toNat_ofNat_of_lt h
  split
  · refine ⟨_, _, rfl, (Spells.one ?_).of_eq ?_⟩ <;> rw [number (by omega)]
    assumption
  · split
    · refine ⟨_, _, rfl, (Spells.two ?_ ?_).of_eq ?_⟩
      · rw [number (by omega)]
        omega
      · rw [isContinuation_iff, number (by omega)]
        omega
      · rw [payload, number (by omega), number (by omega)]
        omega
    · split
      · refine ⟨_, _, rfl, (Spells.three ?_ ?_ ?_).of_eq ?_⟩
        · rw [number (by omega)]
          omega
        · rw [mayFollow_iff, number (by omega), number (by omega)]
          omega
        · rw [isContinuation_iff, number (by omega)]
          omega
        · rw [payload, payload, number (by omega), number (by omega), number (by omega)]
          omega
      · refine ⟨_, _, rfl, (Spells.four ?_ ?_ ?_ ?_).of_eq ?_⟩
        · rw [number (by omega)]
          omega
        · rw [mayFollow_iff, number (by omega), number (by omega)]
          omega
        · rw [isContinuation_iff, number (by omega)]
          omega
        · rw [isContinuation_iff, number (by omega)]
          omega
        · rw [payload, payload, payload, number (by omega), number (by omega), number (by omega),
            number (by omega)]
          omega

-- ---------------------------------------------------------------------------
-- Sequences
-- ---------------------------------------------------------------------------

theorem decodeFrom_cons_of_spells (position : Nat) (h : Spells a bs n rest) :
    decodeFrom position (a :: bs) =
      (decodeFrom (position + (Char.ofNat n).utf8Size) rest).map (Char.ofNat n :: ·) := by
  rw [decodeFrom]
  split
  · next step =>
    cases (step_of_spells h).symm.trans step
    rfl
  · next step => cases (step_of_spells h).symm.trans step

theorem decodeFrom_encode (position : Nat) (cs : List Char) :
    decodeFrom position (encode cs) = .ok cs := by
  induction cs generalizing position with
  | nil => rw [encode_nil, decodeFrom]
  | cons c cs ih =>
    obtain ⟨a, bs, encoded, spells⟩ := spells_encodeChar c (encode cs)
    rw [encode_cons, encoded, decodeFrom_cons_of_spells position spells, Char.ofNat_toNat, ih]
    rfl

theorem encode_of_decodeFrom {position : Nat} {bytes : List UInt8} {cs : List Char}
    (h : decodeFrom position bytes = .ok cs) : encode cs = bytes := by
  fun_induction decodeFrom position bytes generalizing cs with
  | case1 => cases h; rfl
  | case2 position b bs c rest step _ ih =>
    obtain ⟨n, spells, rfl⟩ := spells_of_step step
    cases hd : decodeFrom (position + (Char.ofNat n).utf8Size) rest with
    | error p => rw [hd] at h; cases h
    | ok ds =>
      rw [hd] at h
      cases h
      rw [encode_cons, ih hd, spells.encodeChar]
  | case3 => cases h

/-- Decoding accepts what encoding produces, and nothing else. -/
theorem decode_eq_ok_iff {bytes : List UInt8} {cs : List Char} :
    decode bytes = .ok cs ↔ encode cs = bytes :=
  ⟨encode_of_decodeFrom, fun h => h ▸ decodeFrom_encode 0 cs⟩

/-- What is encoded holds nothing broken. -/
theorem decodeLossy_encode (cs : List Char) : decodeLossy (encode cs) = cs := by
  induction cs with
  | nil => rw [encode_nil, decodeLossy]
  | cons c cs ih =>
    obtain ⟨a, bs, encoded, spells⟩ := spells_encodeChar c (encode cs)
    have first := step_of_spells spells
    rw [Char.ofNat_toNat] at first
    rw [encode_cons, encoded, decodeLossy]
    split
    · next step =>
      cases first.symm.trans step
      rw [ih]
    · next step => cases first.symm.trans step

-- ---------------------------------------------------------------------------
-- Boundaries
-- ---------------------------------------------------------------------------

theorem encode_inj {cs ds : List Char} (h : encode cs = encode ds) : cs = ds := by
  have same := (decodeFrom_encode 0 cs).symm.trans (h ▸ decodeFrom_encode 0 ds)
  exact Except.ok.inj same

@[simp] theorem encode_eq_nil {cs : List Char} : encode cs = [] ↔ cs = [] :=
  ⟨fun h => encode_inj (h.trans encode_nil.symm), fun h => h ▸ rfl⟩

/-- No character is encoded as the start of another. -/
theorem encodeChar_append_inj {c d : Char} {xs ys : List UInt8}
    (h : utf8EncodeChar c ++ xs = utf8EncodeChar d ++ ys) : c = d ∧ xs = ys := by
  obtain ⟨a, bs, hc, spells⟩ := spells_encodeChar c xs
  obtain ⟨a', bs', hd, spells'⟩ := spells_encodeChar d ys
  rw [hc, hd, List.cons.injEq] at h
  obtain ⟨rfl, rfl⟩ := h
  have same := (step_of_spells spells).symm.trans (step_of_spells spells')
  rwa [Char.ofNat_toNat, Char.ofNat_toNat, Step.char.injEq] at same

theorem exists_of_encode_eq_append {cs front : List Char} (h : encode cs = encode front ++ rest) :
    ∃ back, cs = front ++ back ∧ rest = encode back := by
  induction front generalizing cs with
  | nil => exact ⟨cs, rfl, h.symm⟩
  | cons c front ih =>
    rw [encode_cons, List.append_assoc] at h
    cases cs with
    | nil =>
      obtain ⟨a, bs, encoded, -⟩ := spells_encodeChar c (encode front ++ rest)
      cases h.trans encoded
    | cons d cs =>
      obtain ⟨rfl, more⟩ := encodeChar_append_inj h
      obtain ⟨back, rfl, rest⟩ := ih more
      exact ⟨back, rfl, rest⟩

/-- A small byte is no part of a longer encoding. -/
theorem encodeChar_of_mem {b : UInt8} {c : Char} (hb : b.toNat < 0x80) (h : b ∈ utf8EncodeChar c) :
    utf8EncodeChar c = [b] ∧ c = Char.ofNat b.toNat := by
  have large {d : UInt8} (hd : isContinuation d = true) : b ≠ d := fun same => by
    have := (isContinuation_iff.1 hd).1
    rw [same] at hb
    omega
  have follows {a d : UInt8} (hd : mayFollow a d = true) : b ≠ d := fun same => by
    have := (mayFollow_iff.1 hd).1.1
    rw [same] at hb
    omega
  have leads {a : UInt8} (ha : 0xC2 ≤ a.toNat) : b ≠ a := fun same => by
    rw [same] at hb
    omega
  obtain ⟨a, bs, encoded, spells⟩ := spells_encodeChar c []
  rw [List.append_nil] at encoded
  generalize hn : c.toNat = n at spells
  rw [encoded] at h ⊢
  cases spells with
  | one ha =>
    cases List.mem_singleton.1 h
    exact ⟨rfl, by rw [← hn, Char.ofNat_toNat]⟩
  | two ha hb => simp [leads ha.1, large hb] at h
  | three ha hb hc => simp [leads (a := a) (by omega), follows hb, large hc] at h
  | four ha hb hc hd => simp [leads (a := a) (by omega), follows hb, large hc, large hd] at h

theorem exists_of_encode_eq_cons {cs : List Char} {front : List UInt8} {b : UInt8}
    (hb : b.toNat < 0x80) (h : encode cs = front ++ b :: rest) :
    ∃ before after, cs = before ++ Char.ofNat b.toNat :: after ∧ front = encode before ∧
      rest = encode after := by
  induction cs generalizing front with
  | nil => simp at h
  | cons c cs ih =>
    have later {front' : List UInt8} (more : encode cs = front' ++ b :: rest)
        (split : front = utf8EncodeChar c ++ front') :
        ∃ before after, c :: cs = before ++ Char.ofNat b.toNat :: after ∧
          front = encode before ∧ rest = encode after := by
      obtain ⟨before, after, rfl, rfl, last⟩ := ih more
      exact ⟨c :: before, after, rfl, split, last⟩
    rw [encode_cons] at h
    rcases List.append_eq_append_iff.1 h with ⟨front', split, more⟩ | ⟨tail, encoded, more⟩
    · exact later more split
    · cases tail with
      | nil =>
        have next : encode cs = [] ++ b :: rest := more.symm
        exact later next (by rw [encoded, List.append_nil, List.append_nil])
      | cons d tail =>
        obtain ⟨rfl, rfl⟩ := List.cons.inj more
        have hm : b ∈ utf8EncodeChar c := encoded ▸ List.mem_append_right _ (List.mem_cons_self ..)
        obtain ⟨alone, rfl⟩ := encodeChar_of_mem hb hm
        rw [alone] at encoded
        have short := congrArg List.length encoded
        simp only [List.length_append, List.length_cons, List.length_nil] at short
        have hf : front = [] := List.eq_nil_of_length_eq_zero (by omega)
        have ht : tail = [] := List.eq_nil_of_length_eq_zero (by omega)
        subst hf ht
        exact ⟨[], cs, rfl, rfl, rfl⟩

end ObjectModel.Utf8
