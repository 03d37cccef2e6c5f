import ObjectModel.FormatSpec
import ObjectModel.Session

/-!
# Percent formats

A format is text with conversions `%[0][width]type`; `%%` stands for a percent
sign. Reading a format yields its pieces up to the first that has no meaning.
-/

namespace ObjectModel.Percent

inductive Conversion where
  | str
  | repr
  | int (style : Numeral.Style)
  deriving DecidableEq, Repr

def Conversion.ofChar? : Char → Option Conversion
  | 's' => some .str
  | 'r' => some .repr
  | 'd' => some (.int .decimal)
  | 'x' => some (.int .lowerHex)
  | 'X' => some (.int .upperHex)
  | _ => none

/-- The letter of a conversion. -/
def Conversion.letter : Conversion → Char
  | .str => 's'
  | .repr => 'r'
  | .int .lowerHex => 'x'
  | .int .upperHex => 'X'
  | .int _ => 'd'

inductive Piece where
  | literal (c : Char)
  | conversion (zero : Bool) (width : Nat) (c : Conversion)
  /-- the format ends inside a conversion -/
  | incomplete
  /-- a width of several digits -/
  | wideWidth
  /-- an unknown conversion -/
  | unknown (c : Char)
  deriving DecidableEq, Repr

/-- What has been read of a conversion. -/
inductive Place where
  | outside
  | opened
  | flagged (zero : Bool)
  | sized (zero : Bool) (width : Nat)
  deriving DecidableEq

/-- The conversion that a letter completes, followed by the rest. -/
def complete (zero : Bool) (width : Nat) (letter : Char) (rest : List Piece) : List Piece :=
  match Conversion.ofChar? letter with
  | some c => .conversion zero width c :: rest
  | none => [.unknown letter]

def piecesFrom : Place → List Char → List Piece
  | .outside, [] => []
  | _, [] => [.incomplete]
  | .outside, c :: cs =>
    if c = '%' then piecesFrom .opened cs else .literal c :: piecesFrom .outside cs
  | .opened, c :: cs =>
    if c = '%' then .literal '%' :: piecesFrom .outside cs
    else if c = '0' then piecesFrom (.flagged true) cs
    else
      match FormatSpec.decimalDigit? c with
      | some d => piecesFrom (.sized false d) cs
      | none => complete false 0 c (piecesFrom .outside cs)
  | .flagged zero, c :: cs =>
    match FormatSpec.decimalDigit? c with
    | some d => piecesFrom (.sized zero d) cs
    | none => complete zero 0 c (piecesFrom .outside cs)
  | .sized zero width, c :: cs =>
    match FormatSpec.decimalDigit? c with
    | some _ => [.wideWidth]
    | none => complete zero width c (piecesFrom .outside cs)

def pieces (format : List Char) : List Piece := piecesFrom .outside format

/-- One item in the form that its conversion asks for. -/
def renderItem (h : Heap) (zero : Bool) (width : Nat) (c : Conversion) (v : Value) :
    Except Cause (List Char) :=
  match c with
  | .str => .ok (Numeral.padLeft ' ' width (h.str v))
  | .repr => .ok (Numeral.padLeft ' ' width (h.repr v))
  | .int style =>
    match v.asInt? with
    | some n => .ok (Numeral.render style zero width n)
    | none =>
      .error (if style = .decimal then .formatNeedsNumber v.kind
        else .formatNeedsInteger c.letter v.kind)

/-- Renders pieces in order, each conversion with the next item. -/
def render (h : Heap) : List Piece → List Value → Except Fault (List Char)
  | [], [] => .ok []
  | [], _ :: _ => .error (.cause .extraFormatItems)
  | .literal c :: rest, items => (render h rest items).map (c :: ·)
  | .conversion .. :: _, [] => .error (.cause .missingFormatItem)
  | .conversion zero width c :: rest, v :: items =>
    match renderItem h zero width c v with
    | .ok text => (render h rest items).map (text ++ ·)
    | .error cause => .error (.cause cause)
  | .incomplete :: _, _ => .error (.cause .incompleteFormat)
  | .wideWidth :: _, _ => .error (.gap ⟨"multi-digit width in % format", "str"⟩)
  | .unknown c :: _, _ => .error (.gap ⟨s!"%{c} conversion", "str"⟩)

/-- A tuple gives its items, any other value is one item. -/
def itemsOf : Value → List Value
  | .tuple _ items => items
  | v => [v]

def format (h : Heap) (fmt : List Char) (operand : Value) : Except Fault (List Char) :=
  render h (pieces fmt) (itemsOf operand)

end ObjectModel.Percent
