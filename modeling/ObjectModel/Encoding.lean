import ObjectModel.Fault

/-!
# Encodings

The names of the supported encodings, and the two directions of each. Names are
compared without regard to case, surrounding blanks and the choice between
underscore and hyphen.
-/

namespace ObjectModel

inductive Encoding where
  | utf8
  | ascii
  | latin1
  deriving DecidableEq, Repr

namespace Encoding

def lowerAscii (cs : List Char) : List Char := cs.map Char.toLower

def normalizeName (name : List Char) : List Char :=
  (lowerAscii (Text.trim Text.isBlank name)).map fun c => if c = '_' then '-' else c

def ofName? (name : List Char) : Option Encoding :=
  let normal := normalizeName name
  if normal = "utf-8".toList ∨ normal = "utf8".toList then some .utf8
  else if normal = "ascii".toList then some .ascii
  else if normal = "latin-1".toList ∨ normal = "latin1".toList ∨ normal = "iso-8859-1".toList then
    some .latin1
  else none

/-- Code points below this number have a byte of their own. Only the name
written out as `ascii`, without blanks around it, restricts the encoder to
seven bits. -/
def limit (name : List Char) : Nat := if lowerAscii name = "ascii".toList then 0x80 else 0x100

/-- One byte per character, below a limit. -/
def encodeNarrow (name : List Char) (limit : Nat) (position : Nat) :
    List Char → Except Cause (List UInt8)
  | [] => .ok []
  | c :: cs =>
    if c.toNat < limit then
      (encodeNarrow name limit (position + 1) cs).map (UInt8.ofNat c.toNat :: ·)
    else .error (.unencodable name c position)

def encode (name cs : List Char) : Except Cause (List UInt8) :=
  match ofName? name with
  | some .utf8 => .ok (Utf8.encode cs)
  | some .ascii | some .latin1 => encodeNarrow name (limit name) 0 cs
  | none => .error (.unknownEncoding name)

def charOfByte (b : UInt8) : Char := Char.ofNat b.toNat

def decodeUtf8 (data : List UInt8) : Except Cause (List Char) :=
  match Utf8.decode data with
  | .ok cs => .ok cs
  | .error position => .error (.undecodable "utf-8" (data[position]?.getD 0) position)

def decode (name : List Char) (data : List UInt8) : Except Cause (List Char) :=
  match ofName? name with
  | some .utf8 => decodeUtf8 data
  | some .ascii =>
    match data.findIdx? (0x80 ≤ ·) with
    | some position => .error (.undecodable "ascii" (data[position]?.getD 0) position)
    | none => .ok (data.map charOfByte)
  | some .latin1 => .ok (data.map charOfByte)
  | none => .error (.unknownEncoding name)

end Encoding

end ObjectModel
