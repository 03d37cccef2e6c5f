import ObjectModel.Checked
import ObjectModel.Text.Blank

/-!
# Integer numerals

Reading: surrounding blanks, a sign, a radix mark and single underscores
between digits are accepted. Writing: digits in a radix, padded to a width.
-/

namespace ObjectModel.Numeral

/-- Why a text has no integer value. -/
inductive Error where
  | malformed
  | tooLarge
  deriving DecidableEq, Repr

/-- Value of a digit in radixes up to 36. -/
def digit? (c : Char) : Option Nat :=
  if '0' ≤ c ∧ c ≤ '9' then some (c.toNat - 48)
  else if 'a' ≤ c ∧ c ≤ 'z' then some (c.toNat - 87)
  else if 'A' ≤ c ∧ c ≤ 'Z' then some (c.toNat - 55)
  else none

/-- What was read just before: nothing yet (with or without a radix mark), a
digit, or an underscore. -/
inductive Place where
  | start (marked : Bool)
  | digit
  | underscore
  deriving DecidableEq

/-- A magnitude that no word reaches. -/
def ceiling : Nat := 0x10000000000000000

/-- Digits below the radix with single underscores between them, or directly
after a radix mark. Values from `ceiling` on are not told apart. -/
def magnitudeFrom? (radix : Nat) : Place → Nat → List Char → Option Nat
  | .digit, acc, [] => some acc
  | _, _, [] => none
  | place, acc, c :: cs =>
    if c = '_' then
      match place with
      | .digit | .start true => magnitudeFrom? radix .underscore acc cs
      | .start false | .underscore => none
    else
      match digit? c with
      | some d =>
        if d < radix then magnitudeFrom? radix .digit (min (acc * radix + d) ceiling) cs else none
      | none => none

def magnitude? (radix : Nat) (marked : Bool) (body : List Char) : Option Nat :=
  magnitudeFrom? radix (.start marked) 0 body

/-- The sign of a numeral and what follows it. -/
def splitSign : List Char → Bool × List Char
  | '-' :: cs => (true, cs)
  | '+' :: cs => (false, cs)
  | cs => (false, cs)

/-- What follows a zero and the given letter in either case. -/
def dropMark? (letter : Char) : List Char → Option (List Char)
  | '0' :: c :: cs => if c.toLower = letter then some cs else none
  | _ => none

/-- The letter that marks a radix. -/
def markOf? : Nat → Option Char
  | 16 => some 'x'
  | 8 => some 'o'
  | 2 => some 'b'
  | _ => none

/-- An unsigned numeral whose radix is chosen by its mark. Without a mark it is
decimal, and then a leading zero may only be followed by zeros. -/
def unsignedAuto? (body : List Char) : Option Nat :=
  match dropMark? 'x' body, dropMark? 'o' body, dropMark? 'b' body with
  | some rest, _, _ => magnitude? 16 true rest
  | none, some rest, _ => magnitude? 8 true rest
  | none, none, some rest => magnitude? 2 true rest
  | none, none, none =>
    if body.head? = some '0' ∧ body.any (fun c => c != '0' && c != '_') then none
    else magnitude? 10 false body

/-- An unsigned numeral; base zero leaves the radix to the mark, and the bases
that have a mark allow it. -/
def unsigned? (base : Nat) (body : List Char) : Option Nat :=
  if base = 0 then unsignedAuto? body
  else
    match (markOf? base).bind (dropMark? · body) with
    | some rest => magnitude? base true rest
    | none => magnitude? base false body

def ofMagnitude (negative : Bool) (n : Nat) : Except Error Int64 :=
  match Checked.narrow? (if negative then -(n : Int) else n) with
  | some w => .ok w
  | none => .error .tooLarge

def parse (base : Nat) (text : List Char) : Except Error Int64 :=
  let (negative, body) := splitSign (Text.trim Text.isBlank text)
  match unsigned? base body with
  | some n => ofMagnitude negative n
  | none => .error .malformed

/-- Lower-case digits of a natural number. -/
def digits (radix n : Nat) : List Char := Nat.toDigits radix n

def decimal (n : Int) : List Char :=
  (if n < 0 then ['-'] else []) ++ digits 10 n.natAbs

def hex (n : Int) : List Char :=
  (if n < 0 then ['-'] else []) ++ '0' :: 'x' :: digits 16 n.natAbs

/-- Fills on the left up to a width. -/
def padLeft (fill : Char) (width : Nat) (body : List Char) : List Char :=
  List.replicate (width - body.length) fill ++ body

/-- Right-aligns a number; zeros go between the sign and the digits. -/
def padNumber (negative zero : Bool) (width : Nat) (body : List Char) : List Char :=
  let sign := if negative then ['-'] else []
  if zero then sign ++ padLeft '0' (width - sign.length) body
  else padLeft ' ' width (sign ++ body)

/-- The ways a format may ask for an integer. -/
inductive Style where
  | decimal
  | lowerHex
  | upperHex
  | octal
  | binary
  deriving DecidableEq, Repr

def Style.radix : Style → Nat
  | .decimal => 10
  | .lowerHex | .upperHex => 16
  | .octal => 8
  | .binary => 2

def Style.ofChar? : Char → Option Style
  | 'd' => some .decimal
  | 'x' => some .lowerHex
  | 'X' => some .upperHex
  | 'o' => some .octal
  | 'b' => some .binary
  | _ => none

def Style.digits (style : Style) (n : Nat) : List Char :=
  let ds := Numeral.digits style.radix n
  if style = .upperHex then ds.map Char.toUpper else ds

/-- An integer in a style, right-aligned to a width. -/
def render (style : Style) (zero : Bool) (width : Nat) (n : Int64) : List Char :=
  padNumber (n < 0) zero width (style.digits n.toInt.natAbs)

end ObjectModel.Numeral
