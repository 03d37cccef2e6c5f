import ObjectModel.Text.NumberedTable

/-!
# Literals

Texts and byte sequences spelled as quoted literals. The quote is single unless
the content holds single quotes and no double ones.
-/

namespace ObjectModel.Literal

def pickQuote (hasSingle hasDouble : Bool) : Char :=
  if hasSingle && !hasDouble then '"' else '\''

/-- Lower-case hexadecimal digits of a number below 256, at least two. -/
def hexByte (n : Nat) : List Char := [Nat.digitChar (n / 16), Nat.digitChar (n % 16)]

/-- Characters of a text that are spelled by number: controls, the no-break
space and the soft hyphen. -/
def needsNumber (c : Char) : Bool :=
  let n := c.toNat
  n < 0x20 || (0x7F ≤ n && n ≤ 0xA0) || n == 0xAD

def escape (quote c : Char) : List Char :=
  if c = '\\' then ['\\', '\\']
  else if c = '\n' then ['\\', 'n']
  else if c = '\r' then ['\\', 'r']
  else if c = '\t' then ['\\', 't']
  else if c = quote then ['\\', c]
  else if needsNumber c then '\\' :: 'x' :: hexByte c.toNat
  else [c]

def ofText (cs : List Char) : List Char :=
  let quote := pickQuote (cs.contains '\'') (cs.contains '"')
  quote :: cs.flatMap (escape quote) ++ [quote]

def escapeByte (quote : Char) (b : UInt8) : List Char :=
  let c := Char.ofNat b.toNat
  if c = '\\' then ['\\', '\\']
  else if c = '\n' then ['\\', 'n']
  else if c = '\r' then ['\\', 'r']
  else if c = '\t' then ['\\', 't']
  else if c = quote then ['\\', c]
  else if b < 0x20 || 0x7F ≤ b then '\\' :: 'x' :: hexByte b.toNat
  else [c]

def ofBytes (bytes : List UInt8) : List Char :=
  let quote := pickQuote (bytes.contains 0x27) (bytes.contains 0x22)
  'b' :: quote :: bytes.flatMap (escapeByte quote) ++ [quote]

/-- Two hexadecimal digits per byte. -/
def hexDigits (bytes : List UInt8) : List Char := bytes.flatMap (hexByte ·.toNat)

def hexNumber (n : Nat) : List Char := Nat.toDigits 16 n

/-- The literal of one character, in single quotes. Characters without a glyph
of their own are spelled by number in braces. -/
def ofChar (c : Char) : List Char :=
  let body :=
    if c = '\x00' then ['\\', '0']
    else if c = '\\' then ['\\', '\\']
    else if c = '\n' then ['\\', 'n']
    else if c = '\r' then ['\\', 'r']
    else if c = '\t' then ['\\', 't']
    else if c = '\'' then ['\\', '\'']
    else if c.toNat < 0x20 || c.toNat == 0x7F || Text.numberedRanges.any (·.holds c.toNat) then
      '\\' :: 'u' :: '\x7b' :: hexNumber c.toNat ++ ['\x7d']
    else [c]
  '\'' :: body ++ ['\'']

end ObjectModel.Literal
