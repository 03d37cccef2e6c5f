import ObjectModel.Proofs.Encoding.Search
import ObjectModel.Proofs.Text.Packed
import ObjectModel.Text.Window

/-!
# Search windows lie between characters

Bounds are moved into a text as they are into a sequence, so the bytes that a search reads go
from one character to another. Those before an occurrence end where a character starts. All
slices that are asked for exist, and what is found among the bytes is what is found among the
characters.

Main statement: `TextMethod.search_windows_valid`.
-/

namespace ObjectModel

namespace Packed

open Checked (Fits)
open ObjectModel.Text (between between_max)
open Utf8 (encode encode_append length_encode size size_append)

-- ---------------------------------------------------------------------------
-- Words
-- ---------------------------------------------------------------------------

theorem toInt_max (a b : Int64) : (max a b).toInt = max a.toInt b.toInt := by
  show (if a ≤ b then b else a).toInt = _
  split
  · next le => exact (max_eq_right (Int64.le_iff_toInt_le.1 le)).symm
  · next gt => exact (max_eq_left (Int.le_of_not_le (mt Int64.le_iff_toInt_le.2 gt))).symm

theorem toInt_min (a b : Int64) : (min a b).toInt = min a.toInt b.toInt := by
  show (if a ≤ b then a else b).toInt = _
  split
  · next le => exact (min_eq_left (Int64.le_iff_toInt_le.1 le)).symm
  · next gt => exact (min_eq_right (Int.le_of_not_le (mt Int64.le_iff_toInt_le.2 gt))).symm

theorem toInt_clampWord (length bound : Int64) : (clampWord length bound).toInt =
    if bound.toInt < 0 then max (bound + length).toInt 0 else min bound.toInt length.toInt := by
  have negative : bound < 0 ↔ bound.toInt < 0 := Int64.lt_iff_toInt_lt
  simp only [clampWord, negative]
  split
  · exact toInt_max ..
  · exact toInt_min ..

variable {n : Nat} {bound : Int64}

theorem toInt_ofNat (h : Fits n) : (Int64.ofNat n).toInt = n :=
  Int64.toInt_ofNat_of_lt (by have := h.2; omega)

/-- With a length that is a word, the sum does not wrap. -/
theorem toInt_clampWord_of_fits (h : Fits n) (bound : Int64) :
    (clampWord (.ofNat n) bound).toInt = clampBound n bound.toInt := by
  have least := Int64.le_toInt bound
  have room := h.2
  rw [toInt_clampWord, clampBound, toInt_ofNat h]
  split
  · rw [Int64.toInt_add, toInt_ofNat h, Int.bmod_eq_of_le] <;> omega
  · omega

/-- A search starts within the text, also when the length is not a word. -/
theorem clampWord_bounds (inside : ¬ Int64.ofNat n < bound) :
    0 ≤ (clampWord (.ofNat n) bound).toInt ∧ (clampWord (.ofNat n) bound).toInt ≤ n := by
  by_cases h : Fits n
  · rw [toInt_clampWord_of_fits h]
    have := clampBound_le n bound.toInt
    omega
  · have small := Int64.toInt_lt (clampWord (.ofNat n) bound)
    have large : ¬ (n : Int) < 0x8000000000000000 := fun small => h ⟨by omega, small⟩
    refine ⟨?_, by omega⟩
    rw [Int64.lt_iff_toInt_lt] at inside
    rw [toInt_clampWord]
    split <;> omega

-- ---------------------------------------------------------------------------
-- Slices
-- ---------------------------------------------------------------------------

variable {cs sub : List Char} {a b : Nat} {start stop : Option Int64} {w : Window}

theorem le_length_of_isBoundary {t : Packed} {offset : Nat} (h : t.isBoundary offset = true) :
    offset ≤ t.bytes.length := by
  rw [isBoundary, Bool.or_eq_true, beq_iff_eq] at h
  rcases h with rfl | h
  · exact Nat.zero_le _
  · cases at_offset : t.bytes[offset]? with
    | none =>
      rw [at_offset] at h
      exact Nat.le_of_eq (beq_iff_eq.1 h)
    | some b => exact Nat.le_of_lt (List.getElem?_eq_some_iff.1 at_offset).1

/-- A slice that exists lies between boundaries. -/
theorem of_slice? {t : Packed} {lo hi : Nat} {part : List UInt8} (h : t.slice? lo hi = some part) :
    lo ≤ hi ∧ t.isBoundary lo = true ∧ t.isBoundary hi = true := by
  rw [slice?] at h
  split at h
  · assumption
  · cases h

theorem take_append_between (cs : List Char) (order : a ≤ b) :
    cs.take a ++ between cs a b = cs.take b := by
  rw [between, ← List.take_add, Nat.add_sub_cancel' order]

theorem encode_take_append_drop (cs : List Char) (a : Nat) :
    encode cs = encode (cs.take a) ++ encode (cs.drop a) := by
  rw [← encode_append, List.take_append_drop]

theorem take_bytes_ofChars (cs : List Char) (a : Nat) :
    (ofChars cs).bytes.take (size (cs.take a)) = encode (cs.take a) := by
  rw [bytes_ofChars, encode_take_append_drop cs a, ← length_encode, List.take_left]

/-- Every character starts at a boundary, and so does the end. -/
theorem isBoundary_ofChars (cs : List Char) (a : Nat) :
    (ofChars cs).isBoundary (size (cs.take a)) = true := by
  have split := encode_take_append_drop cs a
  have at_start : (encode cs)[size (cs.take a)]? = (encode (cs.drop a)).head? := by
    rw [split, ← length_encode, List.getElem?_append_right (Nat.le_refl _), Nat.sub_self,
      List.head?_eq_getElem?]
  rw [isBoundary, bytes_ofChars, at_start]
  cases h : (encode (cs.drop a)).head? with
  | none =>
    rw [split, List.head?_eq_none_iff.1 h, List.append_nil, length_encode]
    simp
  | some b => simp [Utf8.isContinuation_of_mem_head? h]

theorem slice?_ofChars (cs : List Char) (order : a ≤ b) :
    (ofChars cs).slice? (size (cs.take a)) (size (cs.take b)) = some (encode (between cs a b)) := by
  have parts := take_append_between cs order
  have le : size (cs.take a) ≤ size (cs.take b) := by
    rw [← parts, size_append]
    exact Nat.le_add_right ..
  rw [slice?, if_pos ⟨le, isBoundary_ofChars .., isBoundary_ofChars ..⟩, take_bytes_ofChars,
    ← parts, encode_append, ← length_encode, List.drop_left]

/-- The window from one place among the characters up to another. -/
def windowBetween (cs : List Char) (a b : Nat) : Window :=
  ⟨size (cs.take a), size (cs.take b), .ofNat a⟩

theorem offset_ofChars (cs : List Char) {i : Int64} (nonneg : 0 ≤ i.toInt) :
    (ofChars cs).offset i = size (cs.take i.toInt.toNat) := by
  have index : i.toUInt64.toNat = i.toInt.toNat :=
    Int64.toNat_toUInt64_of_le (Int64.le_iff_toInt_le.2 nonneg)
  rw [offset, index, byteOffset?_ofChars, bytes_ofChars, length_encode]
  split
  · rw [Option.getD_some]
  · next beyond => rw [Option.getD_none, length_encode, List.take_of_length_le (by omega)]

theorem ofNat_toNat {i : Int64} (nonneg : 0 ≤ i.toInt) : Int64.ofNat i.toInt.toNat = i := by
  rw [← Int64.ofInt_eq_ofNat, Int.toNat_of_nonneg nonneg, Int64.ofInt_toInt]

/-- The window of two bounds that are in place, the second moved behind the first. -/
theorem window_offset (cs : List Char) (first last : Int64) (nonneg : 0 ≤ first.toInt) :
    Window.mk ((ofChars cs).offset first) ((ofChars cs).offset (max last first)) first =
      windowBetween cs first.toInt.toNat (max last.toInt first.toInt).toNat := by
  have later := toInt_max last first
  rw [windowBetween, offset_ofChars cs nonneg, offset_ofChars cs (by omega), later,
    ofNat_toNat nonneg]

/-- A window starts within the text and ends no earlier. -/
theorem exists_of_window? (h : (ofChars cs).window? start stop = some w) :
    ∃ a b, a ≤ b ∧ a ≤ cs.length ∧ Fits a ∧ w = windowBetween cs a b := by
  rw [window?, count_ofChars] at h
  split at h
  · cases h
  · next inside =>
    obtain ⟨nonneg, le⟩ := clampWord_bounds inside
    have small := Int64.toInt_lt (clampWord (.ofNat cs.length) (start.getD 0))
    cases h
    exact ⟨_, _, by omega, by omega, ⟨by omega, by omega⟩, window_offset cs _ _ nonneg⟩

/-- With a length that is a word, the bytes are those of the characters that a search reads. -/
theorem window?_of_fits {t : Text} (h : Fits t.count) (start stop : Option Int64) :
    t.packed.window? start stop = none ∧ t.window? start stop = none ∨
    ∃ a b, a ≤ b ∧ t.packed.window? start stop = some (windowBetween t.chars a b) ∧
      t.window? start stop = some (a, between t.chars a b) := by
  have length := toInt_ofNat h
  have lower : (start.map Int64.toInt).getD 0 = (start.getD 0).toInt := by cases start <;> rfl
  have upper : (stop.map Int64.toInt).getD t.count = (stop.getD (.ofNat t.count)).toInt := by
    cases stop with
    | none => exact length.symm
    | some stop => rfl
  have past : Int64.ofNat t.count < start.getD 0 ↔ (t.count : Int) < (start.getD 0).toInt := by
    rw [Int64.lt_iff_toInt_lt, length]
  have first := toInt_clampWord_of_fits h (start.getD 0)
  have last := toInt_clampWord_of_fits h (stop.getD (.ofNat t.count))
  rw [Text.window?, lower, upper, Packed.window?, Text.count_packed, if_congr past rfl rfl]
  generalize clampBound t.count (start.getD 0).toInt = a at *
  generalize clampBound t.count (stop.getD (.ofNat t.count)).toInt = b at *
  split
  · exact .inl ⟨rfl, rfl⟩
  · refine .inr ⟨a, max b a, Nat.le_max_right .., ?_, ?_⟩
    · have behind : (max (b : Int) a).toNat = max b a := by omega
      rw [Text.packed, window_offset _ _ _ (by omega), first, last, Int.toNat_natCast, behind]
    · have same : between t.chars a (max b a) = between t.chars a b := by
        rw [between, between, show max b a - a = b - a by omega]
      rw [same, ← between_max, ← t.count_eq]

-- ---------------------------------------------------------------------------
-- Searching
-- ---------------------------------------------------------------------------

/-- What comes before an occurrence lies between characters too. -/
theorem slice?_front {front back : List Char}
    (found : Text.cut? sub (between cs a b) = some (front, back)) :
    (ofChars cs).slice? (size (cs.take a)) (size (cs.take a) + (encode front).length) =
      some (encode front) := by
  have parts := Occurrence.eq_append_of_firstCut? ((Text.firstCut?_eq ..).trans found)
  have leads : front <+: cs.drop a := by
    refine List.IsPrefix.trans ⟨sub ++ back, ?_⟩ (List.take_prefix (b - a) _)
    rw [← List.append_assoc, ← parts, between]
  have taken : between cs a (a + front.length) = front := by
    rw [between, Nat.add_sub_cancel_left, ← List.prefix_iff_eq_take.1 leads]
  have order := Nat.le_add_right a front.length
  have hi := congrArg size (take_append_between cs order)
  rw [size_append, taken, ← length_encode front] at hi
  rw [hi, slice?_ofChars cs order, taken]

/-- A cut of a text between characters, `first` of which come before it. All slices that a
search takes of it exist. -/
structure Window.Valid (t : Packed) (w : Window) : Prop where
  le : w.lo ≤ w.hi
  le_length : w.hi ≤ t.bytes.length
  isBoundary_lo : t.isBoundary w.lo = true
  isBoundary_hi : t.isBoundary w.hi = true
  byteOffset?_first : 0 ≤ w.first.toInt ∧ t.byteOffset? w.first.toInt.toNat = some w.lo
  length_before : (Utf8.decodeLossy (t.bytes.take w.lo)).length = w.first.toInt
  slices : ∃ within, t.slice? w.lo w.hi = some within ∧
    ∀ sub : Text, ∀ found ∈ Occurrence.cut? UInt8.toUInt64 sub.bytes within,
      (t.slice? w.lo (w.lo + found.1.length)).isSome

theorem valid_windowBetween (order : a ≤ b) (inside : a ≤ cs.length) (fits : Fits a) :
    (windowBetween cs a b).Valid (ofChars cs) := by
  have first : (Int64.ofNat a).toInt = a := toInt_ofNat fits
  have sliced := slice?_ofChars cs order
  obtain ⟨le, lower, upper⟩ := of_slice? sliced
  refine ⟨le, le_length_of_isBoundary upper, lower, upper, ⟨?_, ?_⟩, ?_, _, sliced,
    fun sub found hfound => ?_⟩
  · exact first ▸ Int.natCast_nonneg a
  · rw [windowBetween, first, Int.toNat_natCast, byteOffset?_ofChars, if_pos inside, length_encode]
  · rw [windowBetween, take_bytes_ofChars, Utf8.decodeLossy_encode, first,
      List.length_take_of_le inside]
  · rw [Text.bytes, Utf8.cut?_encode] at hfound
    obtain ⟨⟨front, back⟩, cut, rfl⟩ := Option.map_eq_some_iff.1 hfound
    rw [windowBetween, slice?_front cut]
    rfl

theorem find?_of_window (h : (ofChars cs).window? start stop = some (windowBetween cs a b))
    (order : a ≤ b) (sub : List Char) :
    (ofChars cs).find? (ofChars sub) start stop =
      some (((Text.cut? sub (between cs a b)).map fun found => a + found.1.length).elim (-1)
        Int64.ofNat) := by
  rw [find?, h]
  simp only [windowBetween, slice?_ofChars cs order, Option.bind_eq_bind, Option.bind_some,
    bytes_ofChars, Utf8.cut?_encode]
  cases found : Text.cut? sub (between cs a b) with
  | none => rfl
  | some parts =>
    simp only [Option.map_some, slice?_front found, Option.bind_some, Utf8.decodeLossy_encode]
    exact congrArg some (Int64.ofNat_add ..).symm

theorem count?_of_window (h : (ofChars cs).window? start stop = some (windowBetween cs a b))
    (order : a ≤ b) (sub : List Char) :
    (ofChars cs).count? (ofChars sub) start stop =
      some (.ofNat (Text.countOccurrences sub (between cs a b))) := by
  rw [count?, h]
  simp only [windowBetween, slice?_ofChars cs order, Option.bind_eq_bind, Option.bind_some,
    chars_ofChars, Utf8.decodeLossy_encode]
  rfl

/-- No slice that a search asks for is missing. -/
theorem exists_search (t sub : Text) (start stop : Option Int64) :
    ∃ found n, t.packed.find? sub.packed start stop = some found ∧
      t.packed.count? sub.packed start stop = some n := by
  cases h : t.packed.window? start stop with
  | none => exact ⟨-1, 0, by rw [find?, h], by rw [count?, h]⟩
  | some w =>
    obtain ⟨a, b, order, -, -, rfl⟩ := exists_of_window? h
    exact ⟨_, _, find?_of_window h order sub.chars, count?_of_window h order sub.chars⟩

/-- Searching the bytes ends as searching the characters does. -/
theorem search_of_fits {t : Text} (h : Fits t.count) (sub : Text) (start stop : Option Int64) :
    t.packed.find? sub.packed start stop =
      some ((t.find? sub.chars start stop).elim (-1) Int64.ofNat) ∧
    t.packed.count? sub.packed start stop =
      some (.ofNat (t.countWithin sub.chars start stop)) := by
  rcases window?_of_fits h start stop with ⟨bytes, chars⟩ | ⟨a, b, order, bytes, chars⟩
  · rw [find?, count?, bytes, Text.find?, Text.countWithin, chars]
    exact ⟨rfl, rfl⟩
  · rw [Text.find?_of_window chars, Text.countWithin_of_window chars]
    exact ⟨find?_of_window bytes order sub.chars, count?_of_window bytes order sub.chars⟩

end Packed

namespace TextMethod

open Checked (Fits)
open ObjectModel.Action (callMethod)

/-- Whatever the bounds, a window is a cut of the text between characters, and all slices that
`find` and `count` take exist. What is found in them is what these end with. -/
theorem search_windows_valid (t : Text) (start stop : Option Int64) :
    (∀ w ∈ t.packed.window? start stop, w.Valid t.packed) ∧
    ∀ sub : Text, ∃ found n,
      t.packed.find? sub.packed start stop = some found ∧
      t.packed.count? sub.packed start stop = some n ∧
      (Fits t.count → ∀ vs, Bounds vs start stop → ∀ (tag tag' : Tag) (s : Session),
        ∃ made₁ made₂ s₁ s₂,
          (callMethod (.str tag t) "find".toList ⟨.str tag' sub :: vs, ∅⟩).runOn s =
            (.ok (.int made₁ found), s₁) ∧
          (callMethod (.str tag t) "count".toList ⟨.str tag' sub :: vs, ∅⟩).runOn s =
            (.ok (.int made₂ n), s₂)) := by
  refine ⟨fun w hw => ?_, fun sub => ?_⟩
  · obtain ⟨a, b, order, inside, fits, rfl⟩ := Packed.exists_of_window? hw
    exact Packed.valid_windowBetween order inside fits
  · obtain ⟨found, n, finds, counts⟩ := Packed.exists_search t sub start stop
    refine ⟨found, n, finds, counts, fun fits vs bounds tag tag' s => ?_⟩
    obtain ⟨finds', counts'⟩ := Packed.search_of_fits fits sub start stop
    obtain ⟨made₁, s₁, run₁⟩ := runOn_find bounds tag tag' t sub s
    obtain ⟨made₂, s₂, run₂⟩ := runOn_count bounds tag tag' t sub s
    cases finds.symm.trans finds'
    cases counts.symm.trans counts'
    exact ⟨made₁, made₂, s₁, s₂, run₁, run₂⟩

/-- From its second character, `é€a` is cut at the bytes 2 and 6, and `a` is found there. -/
theorem search_windows_valid_of_wide :
    let t := Text.ofChars ['é', '€', 'a']
    Packed.Window.Valid t.packed ⟨2, 6, 1⟩ ∧ Fits t.count ∧ Bounds [.int 3 1] (some 1) none ∧
    ∃ made₁ made₂ s₁ s₂,
      (callMethod (.str 1 t) "find".toList ⟨[.str 2 (.ofChar 'a'), .int 3 1], ∅⟩).runOn
        (.start [] false) = (.ok (.int made₁ 2), s₁) ∧
      (callMethod (.str 1 t) "count".toList ⟨[.str 2 (.ofChar 'a'), .int 3 1], ∅⟩).runOn
        (.start [] false) = (.ok (.int made₂ 1), s₂) := by
  intro t
  have fits : Fits t.count := by decide
  have bounds : Bounds [.int 3 1] (some 1) none := .start (.int 3 1)
  have window : t.packed.window? (some 1) none = some ⟨2, 6, 1⟩ := by
    rw [Packed.window?, Text.count_packed]
    exact congrArg some (Packed.window_offset t.chars 1 3 (by decide))
  obtain ⟨valid, searches⟩ := search_windows_valid t (some 1) none
  obtain ⟨found, n, finds, counts, runs⟩ := searches (.ofChar 'a')
  obtain ⟨finds', counts'⟩ := Packed.search_of_fits fits (.ofChar 'a') (some 1) none
  have two : (t.find? ['a'] (some 1) none).elim (-1) Int64.ofNat = 2 := by decide
  have within : t.window? (some 1) none = some (1, ['€', 'a']) := by decide
  have cut : Text.cut? ['a'] ['€', 'a'] = some (['€'], []) := by decide
  have one : Int64.ofNat (t.countWithin ['a'] (some 1) none) = 1 := by
    rw [Text.countWithin_of_window within, Text.countOccurrences,
      Text.pieces_of_some (by decide) (by decide) cut, Text.pieces_of_none (by decide)]
    rfl
  cases finds.symm.trans (finds'.trans (congrArg some two))
  cases counts.symm.trans (counts'.trans (congrArg some one))
  exact ⟨valid _ window, fits, bounds, runs fits _ bounds 1 2 (.start [] false)⟩

end TextMethod

end ObjectModel
