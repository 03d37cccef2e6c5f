/-!
# Digests of byte sequences

A digest reads sixteen bytes at a time as two little-endian words and folds
their full product into a running word. The last sixteen bytes are read first,
so a block that is not full needs no padding. A shorter sequence is read from
both of its ends; its length is mixed in, and no byte of it is left out.
-/

namespace ObjectModel.Digest

/-! The four keys are consecutive hexadecimal digits of the fraction of π. -/

private def closingKey : UInt64 := 0x452821e638d01377
private def openingKey : UInt64 := 0xbe5466cf34e90c6c
private def lowKey : UInt64 := 0xc0ac29b7c97c50dd
private def highKey : UInt64 := 0x3f84d5b5b5470917

private def multiplier : UInt64 := 6364136223846793005

/-- Rotation by an amount below 64. -/
def rotateLeft (w amount : UInt64) : UInt64 := (w <<< amount) ||| (w >>> (64 - amount))

/-- The two halves of the 128-bit product, combined into one word. -/
def foldedProduct (a b : UInt64) : UInt64 :=
  let product := a.toNat * b.toNat
  UInt64.ofNat product ^^^ UInt64.ofNat (product >>> 64)

/-- Little-endian word of at most eight bytes. -/
def word (bytes : List UInt8) : UInt64 :=
  bytes.foldr (fun b w => (w <<< 8) ||| b.toUInt64) 0

/-- How many bytes are read from either end of a block of at most sixteen. -/
def reach (size : Nat) : Nat × Nat :=
  if 8 < size then (8, 8)
  else if 4 ≤ size then (4, 4)
  else if 2 ≤ size then (2, 1)
  else (1, 1)

/-- The two ends of a block meet, so every byte is read. -/
theorem le_reach (size : Nat) (h : size ≤ 16) : size ≤ (reach size).1 + (reach size).2 := by
  unfold reach
  split
  · simpa using h
  split
  · simp only; omega
  split <;> simp only <;> omega

/-- Mixes a block of at most sixteen bytes into the running word. -/
def absorb (acc : UInt64) (block : List UInt8) : UInt64 :=
  let (head, tail) := reach block.length
  let low := word (block.take head)
  let high := word (block.drop (block.length - tail))
  rotateLeft ((acc + closingKey) ^^^ foldedProduct (low ^^^ lowKey) (high ^^^ highKey)) 23

/-- Mixes in the next `n` blocks of sixteen bytes. -/
def absorbBlocks : Nat → List UInt8 → UInt64 → UInt64
  | 0, _, acc => acc
  | n + 1, bytes, acc => absorbBlocks n (bytes.drop 16) (absorb acc (bytes.take 16))

/-- Digest of a byte sequence: its length, its last sixteen bytes, then every
block of sixteen that further bytes follow. -/
def ofBytes (bytes : List UInt8) : UInt64 :=
  let size := UInt64.ofNat bytes.length
  let opened := (foldedProduct (size ^^^ openingKey) multiplier + size) * multiplier
  let closing := absorb opened (bytes.drop (bytes.length - 16))
  let acc := absorbBlocks ((bytes.length - 1) / 16) bytes closing
  rotateLeft (foldedProduct acc closingKey) (acc &&& 63)

end ObjectModel.Digest
