import ObjectModel.Gap
import ObjectModel.Numeral

/-!
# Format specifications

`[0][width][type]`: a zero flag, one width digit and one letter, each optional.
Any other specification is a coverage gap.
-/

namespace ObjectModel

structure FormatSpec where
  zero : Bool
  width : Nat
  type : Option Char
  deriving DecidableEq, Repr

namespace FormatSpec

def isLetter (c : Char) : Bool := ('a' ≤ c && c ≤ 'z') || ('A' ≤ c && c ≤ 'Z')

def decimalDigit? (c : Char) : Option Nat :=
  if '0' ≤ c ∧ c ≤ '9' then some (c.toNat - 48) else none

def takeZero : List Char → Bool × List Char
  | '0' :: cs => (true, cs)
  | cs => (false, cs)

def takeWidth : List Char → Nat × List Char
  | [] => (0, [])
  | c :: cs =>
    match decimalDigit? c with
    | some d => (d, cs)
    | none => (0, c :: cs)

def takeType : List Char → Option Char × List Char
  | [] => (none, [])
  | c :: cs => if isLetter c then (some c, cs) else (none, c :: cs)

def parse? (spec : List Char) : Option FormatSpec :=
  let (zero, rest) := takeZero spec
  let (width, rest) := takeWidth rest
  let (type, rest) := takeType rest
  if rest.isEmpty then some ⟨zero, width, type⟩ else none

def unsupported (spec : List Char) (subject : String) : Gap :=
  ⟨s!"format spec '{String.ofList spec}'", subject⟩

def parse (spec : List Char) (subject : String) : Except Gap FormatSpec :=
  match parse? spec with
  | some parsed => .ok parsed
  | none => .error (unsupported spec subject)

def formatInt (n : Int64) (spec : List Char) : Except Gap (List Char) := do
  let parsed ← parse spec "int"
  match parsed.type with
  | none => return Numeral.render .decimal parsed.zero parsed.width n
  | some c =>
    match Numeral.Style.ofChar? c with
    | some style => return Numeral.render style parsed.zero parsed.width n
    | none => throw ⟨s!"format code '{c}'", "int"⟩

/-- Formats a text, left-aligned. -/
def formatText (cs spec : List Char) : Except Gap (List Char) := do
  if spec.isEmpty then return cs
  let parsed ← parse spec "str"
  if parsed.zero ∨ (parsed.type ≠ none ∧ parsed.type ≠ some 's') then
    throw (unsupported spec "str")
  return cs ++ List.replicate (parsed.width - cs.length) ' '

end FormatSpec

end ObjectModel
