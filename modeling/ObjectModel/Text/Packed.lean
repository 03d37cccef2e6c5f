import ObjectModel.Utf8

/-!
# Packed texts

A text as it lies in memory: its UTF-8 bytes, and how many characters they spell. Bytes that
fit into a small buffer stand in the value itself, others in a shared block. Nothing here
keeps the number and the bytes together but the way texts are made.
-/

namespace ObjectModel

/-- Longest UTF-8 form that is stored inside the value itself. -/
def inlineCapacity : Nat := 22

/-- Where each character starts when the first one starts at `offset`. -/
def Utf8.starts (offset : Nat) : List Char → List Nat
  | [] => []
  | c :: cs => offset :: starts (offset + c.utf8Size) cs

inductive Payload where
  /-- the first `len` bytes of a buffer -/
  | inline (len : UInt8) (buffer : Vector UInt8 inlineCapacity)
  | shared (data : List UInt8)
  deriving DecidableEq

structure Packed where
  payload : Payload
  count : Nat
  deriving DecidableEq

namespace Packed

def zeros : Vector UInt8 inlineCapacity := .replicate inlineCapacity 0

/-- Copies bytes into a buffer, the first to position `start`. -/
def blit (buffer : Vector UInt8 inlineCapacity) (start : Nat) :
    List UInt8 → Vector UInt8 inlineCapacity
  | [] => buffer
  | b :: bs => blit (buffer.setIfInBounds start b) (start + 1) bs

def new : Packed := ⟨.inline 0 zeros, 0⟩

/-- Bytes that fit into the buffer, with a count that is not checked. -/
def ofShort (data : List UInt8) (count : Nat) : Packed :=
  ⟨.inline (.ofNat data.length) (blit zeros 0 data), count⟩

/-- The bytes of a string, whose characters are counted. -/
def ofBytes (data : List UInt8) : Packed :=
  let count := (Utf8.decodeLossy data).length
  if data.length ≤ inlineCapacity then ofShort data count else ⟨.shared data, count⟩

def ofChars (cs : List Char) : Packed := ofBytes (Utf8.encode cs)

def ofChar (c : Char) : Packed := ofShort (String.utf8EncodeChar c) 1

def bytes (t : Packed) : List UInt8 :=
  match t.payload with
  | .inline len buffer => buffer.toList.take len.toNat
  | .shared data => data

/-- The characters that the bytes spell, whatever the count says. -/
def chars (t : Packed) : List Char := Utf8.decodeLossy t.bytes

def isInline (t : Packed) : Bool :=
  match t.payload with
  | .inline .. => true
  | .shared _ => false

def isEmpty (t : Packed) : Bool := t.count == 0

/-- As many bytes as characters means one byte for each. -/
def isAscii (t : Packed) : Bool := t.count == t.bytes.length

def charAt? (t : Packed) (index : Nat) : Option Char :=
  if t.isAscii then t.bytes[index]?.map fun b => Char.ofNat b.toNat
  else t.chars[index]?

/-- Byte offset of a code point; the count itself names the end. -/
def byteOffset? (t : Packed) (index : Nat) : Option Nat :=
  if t.count < index then none
  else if t.isAscii || index == t.count then
    some (if index == t.count then t.bytes.length else index)
  else (Utf8.starts 0 t.chars)[index]?

/-- Joins two texts without counting again. -/
def concat (s t : Packed) : Packed :=
  if t.isEmpty then s
  else if s.isEmpty then t
  else
    let count := s.count + t.count
    let total := s.bytes.length + t.bytes.length
    if total ≤ inlineCapacity then
      ⟨.inline (.ofNat total) (blit (blit zeros 0 s.bytes) s.bytes.length t.bytes), count⟩
    else ⟨.shared (s.bytes ++ t.bytes), count⟩

/-- `n` copies in a row. -/
def replicate (n : Nat) (t : Packed) : Packed :=
  match n with
  | 0 => new
  | 1 => t
  | n => ofBytes (if t.bytes.isEmpty then [] else (List.replicate n t.bytes).flatten)

end Packed

end ObjectModel
