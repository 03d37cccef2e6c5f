import ObjectModel.Text.Search

/-!
# Search windows

What a search reads of a packed text: a slice of its bytes, from one character to another. The
bounds are 64-bit words, and sums of them wrap. A slice exists only if it lies between
characters; a search that asks for any other one has no result.
-/

namespace ObjectModel.Packed

/-- A character starts at the offset, or the text ends there. -/
def isBoundary (t : Packed) (offset : Nat) : Bool :=
  offset == 0 ||
    match t.bytes[offset]? with
    | some b => !Utf8.isContinuation b
    | none => offset == t.bytes.length

/-- The bytes from one boundary up to another. -/
def slice? (t : Packed) (lo hi : Nat) : Option (List UInt8) :=
  if lo ≤ hi ∧ t.isBoundary lo ∧ t.isBoundary hi then some ((t.bytes.take hi).drop lo) else none

/-- Where a bound lies in a text of so many characters; a negative one counts from its end. -/
def clampWord (length bound : Int64) : Int64 :=
  if bound < 0 then max (bound + length) 0 else min bound length

/-- The bytes that a search reads, and the place of the first character among them. -/
structure Window where
  lo : Nat
  hi : Nat
  first : Int64
  deriving DecidableEq, Repr

/-- Byte offset of a code point; the end for those that there are not. -/
def offset (t : Packed) (index : Int64) : Nat :=
  (t.byteOffset? index.toUInt64.toNat).getD t.bytes.length

/-- What optional bounds select; nothing when a search would start past the end. -/
def window? (t : Packed) (start stop : Option Int64) : Option Window :=
  let length := Int64.ofNat t.count
  let lower := start.getD 0
  let first := clampWord length lower
  let last := clampWord length (stop.getD length)
  if length < lower then none else some ⟨t.offset first, t.offset (max last first), first⟩

/-- Code point index of the first occurrence within the bounds, or minus one. -/
def find? (t sub : Packed) (start stop : Option Int64) : Option Int64 :=
  match t.window? start stop with
  | none => some (-1)
  | some w => do
    let within ← t.slice? w.lo w.hi
    match Occurrence.cut? UInt8.toUInt64 sub.bytes within with
    | none => return -1
    | some (front, _) =>
      let before ← t.slice? w.lo (w.lo + front.length)
      return w.first + Int64.ofNat (Utf8.decodeLossy before).length

def count? (t sub : Packed) (start stop : Option Int64) : Option Int64 :=
  match t.window? start stop with
  | none => some 0
  | some w => do
    let within ← t.slice? w.lo w.hi
    return Int64.ofNat (Text.countOccurrences sub.chars (Utf8.decodeLossy within))

end ObjectModel.Packed
