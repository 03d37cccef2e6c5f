import ObjectModel.Text.Packed

/-!
# Text

Immutable character sequences, measured and indexed in code points. The count
is taken when a text is made, and short texts live inside the value.
-/

namespace ObjectModel

inductive Storage where
  | inline
  | shared
  deriving DecidableEq, Repr

def Storage.forSize (bytes : Nat) : Storage := if bytes ≤ inlineCapacity then .inline else .shared

/-- A text with its cached count of code points. -/
structure Text where
  chars : List Char
  count : Nat
  storage : Storage
  count_eq : count = chars.length
  storage_eq : storage = Storage.forSize (Utf8.size chars)
  deriving DecidableEq

namespace Text

theorem ext_chars {s t : Text} (h : s.chars = t.chars) : s = t := by
  obtain ⟨cs, n, k, hn, hk⟩ := s
  obtain ⟨ds, m, l, hm, hl⟩ := t
  cases h
  subst hn hm hk hl
  rfl

def ofChars (cs : List Char) : Text := ⟨cs, cs.length, .forSize (Utf8.size cs), rfl, rfl⟩

def ofString (s : String) : Text := ofChars s.toList

def ofChar (c : Char) : Text := ofChars [c]

def empty : Text := ofChars []

instance : EmptyCollection Text := ⟨empty⟩

instance : Inhabited Text := ⟨empty⟩

@[simp] theorem chars_ofChars (cs : List Char) : (ofChars cs).chars = cs := rfl

@[simp] theorem count_ofChars (cs : List Char) : (ofChars cs).count = cs.length := rfl

theorem eq_ofChars (t : Text) : t = ofChars t.chars := ext_chars rfl

def toString (t : Text) : String := String.ofList t.chars

def bytes (t : Text) : List UInt8 := Utf8.encode t.chars

def byteLength (t : Text) : Nat := Utf8.size t.chars

theorem length_bytes (t : Text) : t.bytes.length = t.byteLength := Utf8.length_encode _

def isEmpty (t : Text) : Bool := t.count == 0

theorem isEmpty_iff {t : Text} : t.isEmpty = true ↔ t.chars = [] := by
  simp [isEmpty, t.count_eq]

def isInline (t : Text) : Bool := t.storage == .inline

/-- A text whose characters all take one byte has as many bytes as characters. -/
def isAscii (t : Text) : Bool := t.count == t.byteLength

/-- The text as it lies in memory. -/
def packed (t : Text) : Packed := .ofChars t.chars

def charAt? (t : Text) (index : Nat) : Option Char := t.packed.charAt? index

/-- Byte offset of a code point; the count itself names the end. -/
def byteOffset? (t : Text) (index : Nat) : Option Nat := t.packed.byteOffset? index

/-- Joins two texts, adding their counts. -/
def concat (s t : Text) : Text :=
  if t.isEmpty then s
  else if s.isEmpty then t
  else
    { chars := s.chars ++ t.chars
      count := s.count + t.count
      storage := .forSize (s.byteLength + t.byteLength)
      count_eq := by simp [s.count_eq, t.count_eq]
      storage_eq := by rw [byteLength, byteLength, Utf8.size_append] }

/-- `n` copies in a row. -/
def replicate (n : Nat) (t : Text) : Text :=
  match n with
  | 0 => empty
  | 1 => t
  | n => if t.isEmpty then empty else ofChars (List.replicate n t.chars).flatten

instance : Append Text := ⟨concat⟩

/-- Orders two byte sequences by their first difference. -/
def compareBytes : List UInt8 → List UInt8 → Ordering
  | [], [] => .eq
  | [], _ :: _ => .lt
  | _ :: _, [] => .gt
  | a :: as, b :: bs => if a = b then compareBytes as bs else compare a b

/-- Texts are ordered by their UTF-8 forms. -/
def order (s t : Text) : Ordering := compareBytes s.bytes t.bytes

/-- Texts are the same when their counts and their UTF-8 forms are. -/
def same (s t : Text) : Bool := s.count == t.count && s.bytes == t.bytes

end Text

end ObjectModel
