import ObjectModel.Call.Basic
import ObjectModel.Proofs.Encoding.Utf8
import ObjectModel.Proofs.Run
import ObjectModel.Proofs.Text.Ascii

/-!
# Decoding what was encoded

What is decoded is encoded to the same bytes again under every name. What is
encoded is decoded to the same characters, except under a spelling of `ascii`
that the encoder does not recognize, such as one with blanks around it: it then
takes all characters that have a byte of their own, and the decoder refuses
those outside ASCII.

Main statement: `codec_round_trip`.
-/

namespace ObjectModel

namespace Encoding

variable {name cs : List Char} {data : List UInt8}

-- ---------------------------------------------------------------------------
-- Names
-- ---------------------------------------------------------------------------

/-- The name that restricts the encoder is one that the decoder knows as well. -/
theorem ofName?_of_lowerAscii (h : lowerAscii name = "ascii".toList) :
    ofName? name = some .ascii := by
  have solid : ∀ c ∈ name, Text.isBlank c = false := by
    intro c hc
    have lowered : c.toLower ∈ "ascii".toList := h ▸ List.mem_map_of_mem hc
    have letters : ("ascii".toList.all fun d => !Text.isBlank d) = true := rfl
    have letter := List.all_eq_true.1 letters _ lowered
    rwa [Text.isBlank_toLower, Bool.not_eq_true'] at letter
  have normal : normalizeName name = "ascii".toList := by
    rw [normalizeName, Text.trim_eq_self solid, h]
    decide
  rw [ofName?, normal]
  decide

theorem limit_of_latin1 (h : ofName? name = some .latin1) : limit name = 0x100 := by
  rw [limit, if_neg]
  intro spelled
  cases h.symm.trans (ofName?_of_lowerAscii spelled)

theorem le_limit (name : List Char) : 0x80 ≤ limit name := by
  rw [limit]
  split <;> decide

theorem limit_le (name : List Char) : limit name ≤ 0x100 := by
  rw [limit]
  split <;> decide

-- ---------------------------------------------------------------------------
-- One byte per character
-- ---------------------------------------------------------------------------

theorem charOfByte_ofNat {c : Char} (h : c.toNat < 0x100) :
    charOfByte (UInt8.ofNat c.toNat) = c := by
  rw [charOfByte, UInt8.toNat_ofNat_of_lt' h, Char.ofNat_toNat]

theorem toNat_charOfByte (b : UInt8) : (charOfByte b).toNat = b.toNat :=
  Utf8.toNat_ofNat (.inl (Nat.lt_trans b.toNat_lt (by decide)))

theorem encodeNarrow_eq_ok_iff {limit position : Nat} :
    encodeNarrow name limit position cs = .ok data ↔
      (∀ c ∈ cs, c.toNat < limit) ∧ cs.map (fun c => UInt8.ofNat c.toNat) = data := by
  induction cs generalizing position data with
  | nil => simp [encodeNarrow]
  | cons c cs ih =>
    rw [encodeNarrow]
    split
    · next hc =>
      cases rest : encodeNarrow name limit (position + 1) cs with
      | ok bytes =>
        obtain ⟨below, rfl⟩ := ih.1 rest
        simpa [Except.map, hc] using fun _ => below
      | error e =>
        have beyond : ¬ ∀ d ∈ cs, d.toNat < limit := fun below => by
          cases rest.symm.trans (ih.2 ⟨below, rfl⟩)
        simp [Except.map, hc, beyond]
    · next hc => simp [hc]

theorem map_charOfByte (below : ∀ c ∈ cs, c.toNat < 0x100) :
    (cs.map fun c => UInt8.ofNat c.toNat).map charOfByte = cs := by
  rw [List.map_map]
  exact (List.map_congr_left fun c hc => charOfByte_ofNat (below c hc)).trans (List.map_id cs)

theorem map_ofNat_charOfByte (data : List UInt8) :
    (data.map charOfByte).map (fun c => UInt8.ofNat c.toNat) = data := by
  rw [List.map_map]
  refine (List.map_congr_left fun b _ => ?_).trans (List.map_id data)
  rw [Function.comp_apply, toNat_charOfByte, UInt8.ofNat_toNat, id]

/-- Characters below the limit are encoded one by one exactly if they are what
the bytes stand for. -/
theorem encodeNarrow_eq_ok_iff_decoded {limit position : Nat} (narrow : limit ≤ 0x100) :
    encodeNarrow name limit position cs = .ok data ↔
      (∀ c ∈ cs, c.toNat < limit) ∧ data.map charOfByte = cs := by
  rw [encodeNarrow_eq_ok_iff]
  refine and_congr_right fun below => ⟨?_, ?_⟩
  · rintro rfl
    exact map_charOfByte fun c hc => Nat.lt_of_lt_of_le (below c hc) narrow
  · rintro rfl
    exact map_ofNat_charOfByte data

-- ---------------------------------------------------------------------------
-- What each side accepts
-- ---------------------------------------------------------------------------

theorem decodeUtf8_eq_ok_iff : decodeUtf8 data = .ok cs ↔ Utf8.encode cs = data := by
  rw [← Utf8.decode_eq_ok_iff, decodeUtf8]
  split
  · next h => simp [h]
  · next h => simp [h]

theorem decode_latin1_eq_ok_iff (h : ofName? name = some .latin1) :
    decode name data = .ok cs ↔ data.map charOfByte = cs := by
  simp [decode, h]

theorem decode_ascii_eq_ok_iff (h : ofName? name = some .ascii) :
    decode name data = .ok cs ↔ (∀ c ∈ cs, c.toNat < 0x80) ∧ data.map charOfByte = cs := by
  have below_iff (b : UInt8) : (charOfByte b).toNat < 0x80 ↔ ¬ 0x80 ≤ b := by
    rw [toNat_charOfByte, UInt8.le_iff_toNat_le, Nat.not_le]
    rfl
  simp only [decode, h]
  cases found : data.findIdx? (0x80 ≤ ·) with
  | some position =>
    obtain ⟨inside, high, -⟩ := List.findIdx?_eq_some_iff_getElem.1 found
    refine iff_of_false (by simp) ?_
    rintro ⟨below, rfl⟩
    have low := below _ (List.mem_map_of_mem (List.getElem_mem inside))
    exact (below_iff _).1 low (of_decide_eq_true high)
  | none =>
    have low := List.findIdx?_eq_none_iff.1 found
    refine ⟨?_, fun ⟨_, decoded⟩ => congrArg _ decoded⟩
    rintro ⟨⟩
    refine ⟨?_, rfl⟩
    rw [List.forall_mem_map]
    exact fun b hb => (below_iff b).2 (of_decide_eq_false (low b hb))

theorem encode_narrow (h : ofName? name = some .ascii ∨ ofName? name = some .latin1) :
    encode name cs = encodeNarrow name (limit name) 0 cs := by
  rcases h with h | h <;> simp only [encode, h]

-- ---------------------------------------------------------------------------
-- Both directions
-- ---------------------------------------------------------------------------

theorem encode_of_decode (h : decode name data = .ok cs) : encode name cs = .ok data := by
  cases known : ofName? name with
  | none => simp [decode, known] at h
  | some e =>
    cases e with
    | utf8 =>
      simp only [decode, known] at h
      simp only [encode, known, decodeUtf8_eq_ok_iff.1 h]
    | ascii =>
      obtain ⟨below, decoded⟩ := (decode_ascii_eq_ok_iff known).1 h
      rw [encode_narrow (.inl known), encodeNarrow_eq_ok_iff_decoded (limit_le name)]
      exact ⟨fun c hc => Nat.lt_of_lt_of_le (below c hc) (le_limit name), decoded⟩
    | latin1 =>
      have decoded := (decode_latin1_eq_ok_iff known).1 h
      rw [encode_narrow (.inr known), encodeNarrow_eq_ok_iff_decoded (limit_le name),
        limit_of_latin1 known]
      refine ⟨?_, decoded⟩
      rw [← decoded, List.forall_mem_map]
      intro b _
      rw [toNat_charOfByte]
      exact b.toNat_lt

/-- Only a name of ASCII lets the encoder take what the decoder refuses. -/
theorem decode_iff_of_encode (h : encode name cs = .ok data) :
    decode name data = .ok cs ↔ (ofName? name = some .ascii → ∀ c ∈ cs, c.toNat < 0x80) := by
  cases known : ofName? name with
  | none => simp [encode, known] at h
  | some e =>
    cases e with
    | utf8 =>
      simp only [encode, known, Except.ok.injEq] at h
      simp [decode, known, decodeUtf8_eq_ok_iff, h]
    | ascii =>
      rw [encode_narrow (.inl known), encodeNarrow_eq_ok_iff_decoded (limit_le name)] at h
      rw [decode_ascii_eq_ok_iff known]
      exact ⟨fun decoded _ => decoded.1, fun below => ⟨below rfl, h.2⟩⟩
    | latin1 =>
      rw [encode_narrow (.inr known), encodeNarrow_eq_ok_iff_decoded (limit_le name)] at h
      rw [decode_latin1_eq_ok_iff known]
      exact iff_of_true h.2 (by simp)

end Encoding

-- ---------------------------------------------------------------------------
-- Calls
-- ---------------------------------------------------------------------------

namespace Action

theorem runOn_callBytes (tag nameTag : Tag) (x e : Text) (s : Session) :
    (call (.type .bytes) ⟨[.str tag x, .str nameTag e], ∅⟩).runOn s =
      match Encoding.encode e.chars x.chars with
      | .ok data => (newBytes data).runOn s
      | .error c => (.error (.cause c), s) := by
  change ((liftM (Encoding.encode e.chars x.chars) : Action (List UInt8)) >>= newBytes).runOn s = _
  cases Encoding.encode e.chars x.chars with
  | ok data => exact runOn_bind_of_ok (runOn_lift_of_ok rfl s) _
  | error c => exact runOn_bind_of_error (runOn_lift_of_error rfl s) _

theorem runOn_callStr (tag nameTag : Tag) (data : List UInt8) (e : Text) (s : Session) :
    (call (.type .str) ⟨[.bytes tag data, .str nameTag e], ∅⟩).runOn s =
      match Encoding.decode e.chars data with
      | .ok cs => (newChars cs).runOn s
      | .error c => (.error (.cause c), s) := by
  change ((liftM (Encoding.decode e.chars data) : Action (List Char)) >>= newChars).runOn s = _
  cases Encoding.decode e.chars data with
  | ok cs => exact runOn_bind_of_ok (runOn_lift_of_ok rfl s) _
  | error c => exact runOn_bind_of_error (runOn_lift_of_error rfl s) _

theorem ok_of_callBytes {tag nameTag : Tag} {x e : Text} {v : Value} {s s' : Session}
    (h : (call (.type .bytes) ⟨[.str tag x, .str nameTag e], ∅⟩).runOn s = (.ok v, s')) :
    ∃ made data, v = .bytes made data ∧ Encoding.encode e.chars x.chars = .ok data := by
  rw [runOn_callBytes] at h
  cases encoded : Encoding.encode e.chars x.chars with
  | ok data =>
    rw [encoded] at h
    cases h
    exact ⟨_, data, rfl, rfl⟩
  | error c =>
    rw [encoded] at h
    cases h

end Action

/-- Decoding is undone by encoding under every name. Encoding is undone by
decoding unless the name is one of ASCII and a character is not, which only a
spelling that the encoder does not recognize lets through. -/
theorem Encoding.codec_round_trip (name : Text) :
    (∀ cs data, decode name.chars data = .ok cs → encode name.chars cs = .ok data) ∧
    (∀ cs data, encode name.chars cs = .ok data →
      (decode name.chars data = .ok cs ↔
        (ofName? name.chars = some .ascii → ∀ c ∈ cs, c.toNat < 0x80))) ∧
    ∀ tag nameTag x v s s',
      (Action.call (.type .bytes) ⟨[.str tag x, .str nameTag name], ∅⟩).runOn s = (.ok v, s') →
      (ofName? name.chars = some .ascii → ∀ c ∈ x.chars, c.toNat < 0x80) →
      ∃ made s'', (Action.call (.type .str) ⟨[v, .str nameTag name], ∅⟩).runOn s' =
        (.ok (.str made x), s'') := by
  refine ⟨fun _ _ => encode_of_decode, fun _ _ => decode_iff_of_encode, ?_⟩
  intro tag nameTag x v s s' encoded plain
  obtain ⟨made, data, rfl, h⟩ := Action.ok_of_callBytes encoded
  have decoded := (decode_iff_of_encode h).2 plain
  obtain ⟨tag', fresh, made'⟩ := Action.runOn_newChars x.chars s'
  refine ⟨tag', s'.reach fresh, ?_⟩
  rw [Action.runOn_callStr, decoded]
  exact made'.trans (by rw [← x.eq_ofChars])

theorem Encoding.codec_round_trip_latin1 :
    encode " Latin_1 ".toList "é".toList = .ok [0xE9] ∧
    decode " Latin_1 ".toList [0xE9] = .ok "é".toList := by
  have encoded : encode " Latin_1 ".toList "é".toList = .ok [0xE9] := rfl
  refine ⟨encoded, ((codec_round_trip (.ofString " Latin_1 ")).2.1 _ _ encoded).2 ?_⟩
  intro ascii
  exact absurd ascii (by decide)

/-- With blanks around it the name of ASCII does not restrict the encoder, and
what it makes is not decoded. -/
theorem Encoding.not_codec_round_trip_of_blanks :
    encode " ascii ".toList "é".toList = .ok [0xE9] ∧
    decode " ascii ".toList [0xE9] = .error (.undecodable "ascii" 0xE9 0) :=
  ⟨rfl, rfl⟩

end ObjectModel
