import ObjectModel.Proofs.Encoding.Utf8
import ObjectModel.Proofs.Sequence.Repetition

/-!
# Texts as they lie in memory

However a text is made, it is packed as a string of its characters is: the bytes are their
UTF-8 form, in the buffer when they fit, and the count is theirs. What is read off the bytes
is then what the characters say.

Main statements: `Recipe.packed_eq` and `Recipe.represents`.
-/

namespace ObjectModel

-- ---------------------------------------------------------------------------
-- Sizes of characters
-- ---------------------------------------------------------------------------

namespace Utf8

variable {cs : List Char}

theorem getElem?_starts {i : Nat} (offset : Nat) (inside : i < cs.length) :
    (starts offset cs)[i]? = some (offset + size (cs.take i)) := by
  induction cs generalizing offset i with
  | nil => exact absurd inside (Nat.not_lt_zero i)
  | cons c cs ih =>
    cases i with
    | zero => rfl
    | succ i =>
      rw [starts, List.getElem?_cons_succ, ih _ (Nat.lt_of_succ_lt_succ inside)]
      simp only [size, List.take_succ_cons, List.foldr_cons, Nat.add_assoc]

theorem utf8Size_eq_one_iff {c : Char} : c.utf8Size = 1 ↔ c.toNat < 0x80 :=
  Char.utf8Size_eq_one_iff.trans (Nat.lt_succ_iff (n := 0x7F)).symm

theorem size_of_ascii (ascii : ∀ c ∈ cs, c.toNat < 0x80) : size cs = cs.length := by
  induction cs with
  | nil => rfl
  | cons c cs ih =>
    obtain ⟨first, rest⟩ := List.forall_mem_cons.1 ascii
    rw [List.length_cons, ← ih rest, Nat.add_comm, ← utf8Size_eq_one_iff.2 first]
    rfl

theorem size_eq_length_iff : size cs = cs.length ↔ ∀ c ∈ cs, c.toNat < 0x80 :=
  ⟨fun h c hc => utf8Size_eq_one_iff.1 (Text.utf8Size_of_size_eq h c hc), size_of_ascii⟩

end Utf8

namespace Packed

open Utf8 (encode length_encode)

variable {cs : List Char}

-- ---------------------------------------------------------------------------
-- Buffers
-- ---------------------------------------------------------------------------

section

variable {buffer : Vector UInt8 inlineCapacity} {start : Nat} {data : List UInt8}

/-- Copying in two pieces is copying at once. -/
theorem blit_append (buffer : Vector UInt8 inlineCapacity) (start : Nat) (xs ys : List UInt8) :
    blit (blit buffer start xs) (start + xs.length) ys = blit buffer start (xs ++ ys) := by
  induction xs generalizing buffer start with
  | nil => rfl
  | cons x xs ih =>
    rw [List.length_cons, Nat.add_comm xs.length, ← Nat.add_assoc]
    exact ih _ _

/-- Bytes that fit replace what was there, and nothing else. -/
theorem toList_blit (fits : start + data.length ≤ inlineCapacity) :
    (blit buffer start data).toList =
      buffer.toList.take start ++ data ++ buffer.toList.drop (start + data.length) := by
  -- on the bytes still to be copied, each of which moves `start` on by one
  induction data generalizing buffer start with
  | nil => simp [blit]
  | cons b bs ih =>
    rw [List.length_cons] at fits
    have inside : start < buffer.toList.length := by
      rw [Vector.length_toList]
      omega
    rw [blit, ih (by omega), Vector.toList_setIfInBounds, List.drop_set_of_lt (by omega),
      List.take_add_one, List.take_set_of_le (Nat.le_refl start), List.getElem?_set_self inside,
      List.length_cons, Nat.add_assoc, Nat.add_comm 1]
    simp

theorem bytes_ofShort {n : Nat} (fits : data.length ≤ inlineCapacity) :
    (ofShort data n).bytes = data := by
  have len : (UInt8.ofNat data.length).toNat = data.length :=
    UInt8.toNat_ofNat_of_lt (Nat.lt_of_le_of_lt fits (by decide))
  show (blit zeros 0 data).toList.take (UInt8.ofNat data.length).toNat = data
  rw [len, toList_blit (by rwa [Nat.zero_add])]
  simp

theorem bytes_ofBytes (data : List UInt8) : (ofBytes data).bytes = data := by
  rw [ofBytes]
  split
  · next fits => exact bytes_ofShort fits
  · rfl

end

-- ---------------------------------------------------------------------------
-- Packed strings
-- ---------------------------------------------------------------------------

@[simp] theorem bytes_ofChars (cs : List Char) : (ofChars cs).bytes = encode cs :=
  bytes_ofBytes _

@[simp] theorem chars_ofChars (cs : List Char) : (ofChars cs).chars = cs := by
  rw [chars, bytes_ofChars, Utf8.decodeLossy_encode]

theorem ofChars_eq (cs : List Char) : ofChars cs =
    if (encode cs).length ≤ inlineCapacity then ofShort (encode cs) cs.length
    else ⟨.shared (encode cs), cs.length⟩ := by
  rw [ofChars, ofBytes, Utf8.decodeLossy_encode]

@[simp] theorem count_ofChars (cs : List Char) : (ofChars cs).count = cs.length := by
  rw [ofChars_eq]
  split <;> rfl

@[simp] theorem isInline_ofChars (cs : List Char) :
    (ofChars cs).isInline = decide ((encode cs).length ≤ inlineCapacity) := by
  rw [ofChars_eq]
  split
  · next fits => exact (decide_eq_true fits).symm
  · next large => exact (decide_eq_false large).symm

theorem isEmpty_ofChars : (ofChars cs).isEmpty = true ↔ cs = [] := by
  rw [isEmpty, count_ofChars, beq_iff_eq, List.length_eq_zero_iff]

theorem isAscii_ofChars : (ofChars cs).isAscii = true ↔ ∀ c ∈ cs, c.toNat < 0x80 := by
  rw [isAscii, beq_iff_eq, count_ofChars, bytes_ofChars, length_encode, eq_comm,
    Utf8.size_eq_length_iff]

theorem charAt?_ofChars (cs : List Char) (i : Nat) : (ofChars cs).charAt? i = cs[i]? := by
  rw [charAt?]
  split
  · next ascii =>
    have size := Utf8.size_of_ascii (isAscii_ofChars.1 ascii)
    have text : (Text.ofChars cs).isAscii = true := beq_iff_eq.2 size.symm
    rw [bytes_ofChars, ← List.getElem?_map]
    exact congrArg (·[i]?) (Text.chars_of_isAscii text)
  · rw [chars_ofChars]

/-- Both shortcuts give what counting from the front gives. -/
theorem byteOffset?_ofChars (cs : List Char) (i : Nat) : (ofChars cs).byteOffset? i =
    if i ≤ cs.length then some (encode (cs.take i)).length else none := by
  rw [byteOffset?, count_ofChars, bytes_ofChars, chars_ofChars]
  rcases Nat.lt_trichotomy i cs.length with inside | rfl | beyond
  · -- inside the text only the shortcut for ASCII is left
    have within := Nat.le_of_lt inside
    rw [if_neg (Nat.not_lt.2 within), if_pos within]
    split
    · next short =>
      have apart : (i == cs.length) = false := beq_false_of_ne (Nat.ne_of_lt inside)
      rw [apart, Bool.or_false, isAscii_ofChars] at short
      have front : (encode (cs.take i)).length = i := by
        rw [length_encode, Utf8.size_of_ascii fun c hc => short c (List.mem_of_mem_take hc),
          List.length_take_of_le within]
      rw [apart, front]
      rfl
    · rw [Utf8.getElem?_starts 0 inside, Nat.zero_add, length_encode]
  · simp
  · rw [if_pos beyond, if_neg (Nat.not_le.2 beyond)]

-- ---------------------------------------------------------------------------
-- How texts are made
-- ---------------------------------------------------------------------------

theorem new_eq : new = ofChars [] := by
  rw [ofChars_eq]
  rfl

theorem ofChar_eq (c : Char) : ofChar c = ofChars [c] := by
  have encoded : encode [c] = String.utf8EncodeChar c := List.append_nil _
  have short : (String.utf8EncodeChar c).length ≤ inlineCapacity := by
    rw [String.length_utf8EncodeChar]
    exact Nat.le_trans c.utf8Size_le_four (by decide)
  rw [ofChars_eq, encoded, if_pos short]
  rfl

theorem concat_ofChars (cs ds : List Char) :
    (ofChars cs).concat (ofChars ds) = ofChars (cs ++ ds) := by
  rw [concat]
  split
  · next empty => rw [isEmpty_ofChars.1 empty, List.append_nil]
  · split
    · next empty => rw [isEmpty_ofChars.1 empty, List.nil_append]
    · simp only [bytes_ofChars, count_ofChars]
      rw [ofChars_eq (cs ++ ds), Utf8.encode_append, List.length_append, List.length_append]
      split
      · have joined := blit_append zeros 0 (encode cs) (encode ds)
        rw [Nat.zero_add] at joined
        rw [joined, ofShort, List.length_append]
      · rfl

theorem encode_copies (n : Nat) (cs : List Char) :
    encode (List.replicate n cs).flatten = (List.replicate n (encode cs)).flatten := by
  induction n with
  | zero => rfl
  | succ n ih => simp only [List.replicate_succ, List.flatten_cons, Utf8.encode_append, ih]

theorem replicate_ofChars (n : Nat) (cs : List Char) :
    (ofChars cs).replicate n = ofChars (List.replicate n cs).flatten := by
  match n with
  | 0 => exact new_eq
  | 1 => simp [replicate]
  | n + 2 =>
    show ofBytes (if (ofChars cs).bytes.isEmpty then [] else _) = ofBytes _
    rw [bytes_ofChars, encode_copies]
    split
    · next empty => simp [List.isEmpty_iff.1 empty]
    · rfl

/-- A packed text that stores characters and reads as they do. -/
structure Represents (t : Packed) (cs : List Char) : Prop where
  bytes_eq : t.bytes = encode cs
  count_eq : t.count = cs.length
  isInline_iff : t.isInline = true ↔ t.bytes.length ≤ 22
  isAscii_iff : t.isAscii = true ↔ ∀ c ∈ cs, c.toNat < 0x80
  charAt?_eq : ∀ i, t.charAt? i = cs[i]?
  charAt?_eq_none : ∀ i, t.charAt? i = none ↔ t.count ≤ i
  byteOffset?_eq : ∀ i, t.byteOffset? i =
    if i ≤ t.count then some (encode (cs.take i)).length else none

theorem represents_ofChars (cs : List Char) : (ofChars cs).Represents cs where
  bytes_eq := bytes_ofChars cs
  count_eq := count_ofChars cs
  isInline_iff := by
    rw [isInline_ofChars, bytes_ofChars]
    exact decide_eq_true_iff
  isAscii_iff := isAscii_ofChars
  charAt?_eq := charAt?_ofChars cs
  charAt?_eq_none i := by rw [charAt?_ofChars, count_ofChars, List.getElem?_eq_none_iff]
  byteOffset?_eq i := by rw [byteOffset?_ofChars, count_ofChars]

end Packed

namespace Text

-- ---------------------------------------------------------------------------
-- Texts and what is packed
-- ---------------------------------------------------------------------------

variable (t : Text)

theorem bytes_packed : t.packed.bytes = t.bytes := Packed.bytes_ofChars _

theorem count_packed : t.packed.count = t.count := (Packed.count_ofChars _).trans t.count_eq.symm

theorem isAscii_packed : t.packed.isAscii = t.isAscii := by
  rw [Packed.isAscii, count_packed, bytes_packed, length_bytes, isAscii]

theorem isInline_packed : t.packed.isInline = t.isInline := by
  rw [packed, Packed.isInline_ofChars, Utf8.length_encode, isInline, t.storage_eq,
    Storage.forSize]
  split
  · next fits => rw [decide_eq_true fits, beq_self_eq_true]
  · next large => rw [decide_eq_false large]; rfl

/-- How a text is made. -/
inductive Recipe where
  | new
  | borrowed (cs : List Char)
  | owned (cs : List Char)
  | char (c : Char)
  | concat (r q : Recipe)
  | repeated (n : Nat) (r : Recipe)
  | clone (r : Recipe)

namespace Recipe

/-- The characters that are meant. -/
def chars : Recipe → List Char
  | new => []
  | borrowed cs | owned cs => cs
  | char c => [c]
  | concat r q => r.chars ++ q.chars
  | repeated n r => (List.replicate n r.chars).flatten
  | clone r => r.chars

/-- What lies in memory. -/
def packed : Recipe → Packed
  | new => .new
  | borrowed cs | owned cs => .ofChars cs
  | char c => .ofChar c
  | concat r q => r.packed.concat q.packed
  | repeated n r => r.packed.replicate n
  | clone r => r.packed

/-- The text that programs compute with. -/
def text : Recipe → Text
  | new => .empty
  | borrowed cs | owned cs => .ofChars cs
  | char c => .ofChar c
  | concat r q => r.text.concat q.text
  | repeated n r => r.text.replicate n
  | clone r => r.text

theorem packed_eq (r : Recipe) : r.packed = .ofChars r.chars := by
  induction r with
  | new => exact Packed.new_eq
  | borrowed cs | owned cs => rfl
  | char c => exact Packed.ofChar_eq c
  | concat r q first second => rw [packed, first, second, Packed.concat_ofChars, chars]
  | repeated n r ih => rw [packed, ih, Packed.replicate_ofChars, chars]
  | clone r ih => exact ih

theorem chars_text (r : Recipe) : r.text.chars = r.chars := by
  induction r with
  | new | borrowed cs | owned cs | char c => rfl
  | concat r q first second => rw [text, chars_concat, first, second, chars]
  | repeated n r ih => rw [text, chars_replicate, ih, repeatItems_eq, chars]
  | clone r ih => exact ih

theorem packed_text (r : Recipe) : r.text.packed = r.packed := by
  rw [Text.packed, chars_text, packed_eq]

/-- However a text is made, its bytes are the UTF-8 form of the characters that are meant, and
all that is read off them is right. What programs compute with is that text, with the same
bytes, count and place of storage. -/
theorem represents (r : Recipe) :
    r.packed.Represents r.chars ∧ r.text.packed = r.packed ∧ r.text.chars = r.chars ∧
    r.text.bytes = r.packed.bytes ∧ r.text.count = r.packed.count ∧
    r.text.isInline = r.packed.isInline ∧ r.text.isAscii = r.packed.isAscii := by
  have packs := r.packed_text
  refine ⟨?_, packs, r.chars_text, ?_⟩
  · rw [packed_eq]
    exact Packed.represents_ofChars _
  · rw [← packs, bytes_packed, count_packed, isInline_packed, isAscii_packed]
    exact ⟨rfl, rfl, rfl, rfl⟩

end Recipe

end Text

end ObjectModel
