import ObjectModel.Digest

/-!
# Hash codes

Hash codes are 64-bit words. The word `-1` is reserved, so every code is
normalized away from it.
-/

namespace ObjectModel.Hash

/-- `-1` is not a hash code; it is replaced by `-2`. -/
def normalize (h : Int64) : Int64 := if h = -1 then -2 else h

theorem normalize_ne (h : Int64) : normalize h ≠ -1 := by
  unfold normalize
  split
  · decide
  · assumption

def ofInt (n : Int64) : Int64 := normalize n

private def lanePrime : UInt64 := 14029467366897019727
private def mixPrime : UInt64 := 11400714785074694791
private def seedPrime : UInt64 := 2870177450012600261

/-- Mixes one element hash into the accumulator. -/
def mix (acc : UInt64) (lane : Int64) : UInt64 :=
  Digest.rotateLeft (acc + lane.toUInt64 * lanePrime) 31 * mixPrime

/-- Order-sensitive combination of element hashes. -/
def combine (lanes : List Int64) : Int64 :=
  let acc := lanes.foldl mix seedPrime
  let acc := acc + (UInt64.ofNat lanes.length ^^^ (seedPrime ^^^ 3527539))
  if acc.toInt64 = -1 then 1546275796 else acc.toInt64

theorem combine_ne (lanes : List Int64) : combine lanes ≠ -1 := by
  unfold combine
  dsimp only
  split
  · decide
  · assumption

/-- Hash of a byte sequence, a function of the content alone. -/
def ofBytes (bytes : List UInt8) : Int64 := normalize (Digest.ofBytes bytes).toInt64

/-- Hash of a natural number that names an object. -/
def ofTag (tag : Nat) : Int64 := normalize (UInt64.ofNat tag * lanePrime).toInt64

/-- The hashes that are not computed from other hashes: of the UTF-8 form of a
text, of bytes, and of the number that names an object. -/
structure Scheme where
  text : List UInt8 → Int64
  bytes : List UInt8 → Int64
  object : Nat → Int64

def Scheme.standard : Scheme := ⟨ofBytes, ofBytes, ofTag⟩

end ObjectModel.Hash
