import ObjectModel.Checked
import ObjectModel.Gap
import ObjectModel.Numeral
import ObjectModel.Text.Literal
import ObjectModel.Value.Basic

/-!
# Faults

Why an operation fails. A cause is an error that the library itself detects; it
determines the kind of exception and its arguments. A missing key is one too,
told apart because it carries a value. A raised exception is a value that the
program supplied. Gaps are neither and are never caught.
-/

namespace ObjectModel

inductive Cause where
  -- integers
  | overflow
  | zeroDivision
  | negativeShift
  | notAnInteger (k : Kind)
  | malformedNumeral (base : Nat) (text : List Char)
  | numeralTooLarge
  | notANumber (k : Kind)
  | baseGivenTwice
  | missingNumeral
  | baseOutOfRange
  | baseWithoutText
  | notACodePoint
  | notACharacter (length : Nat)
  | notCharacterLike (k : Kind)
  -- operators
  | operands (symbol : String) (left right : Kind)
  | comparison (symbol : String) (left right : Kind)
  | concatenation (onto : Kind) (operand : Kind)
  | byteConcatenation (onto : Kind) (operand : Kind)
  | repetition (operand : Kind)
  | repetitionTooLong
  | textMembership (k : Kind)
  | byteMembership (k : Kind)
  -- subscripts
  | subscript (of : String) (key : Kind)
  | outOfRange (what : String)
  | popFromEmptyList
  | popFromEmptySet
  | zeroSliceStep
  | sliceBound
  | zeroRangeStep
  | rangeBoundTooLarge
  | rangeTooLong
  -- containers
  | unhashable (k : Kind)
  | absent (literal : List Char) (container : Kind)
  | notInList
  | pairNotIterable (index : Nat)
  | pairLength (index length : Nat)
  -- iteration
  | notIterable (k : Kind)
  | notAnIterator (k : Kind)
  | notReversible (k : Kind)
  | exhausted
  | emptySequence (name : String)
  | noLength (k : Kind)
  -- texts and bytes
  | emptySeparator
  | separatorKind (k : Kind)
  | stripKind
  | needleKind (k : Kind)
  | affixKind (m : Method) (k : Kind)
  | affixItemKind (m : Method) (k : Kind)
  | joinItemKind (index : Nat) (k : Kind)
  | byteOutOfRange
  | bytesOutOfRange
  | negativeSize
  | notBytesLike (onto : Kind) (k : Kind)
  | decodingKind (k : Kind)
  | encodingMissing
  | encodingWithoutText
  | unknownEncoding (name : List Char)
  | unencodable (encoding : List Char) (c : Char) (position : Nat)
  | undecodable (encoding : String) (b : UInt8) (position : Nat)
  | sumOfTexts
  | sumOfBytes
  -- formats
  | incompleteFormat
  | missingFormatItem
  | extraFormatItems
  | formatNeedsNumber (k : Kind)
  | formatNeedsInteger (conversion : Char) (k : Kind)
  -- arguments
  | arity (name : String) (least most given : Nat)
  | arityExactly (name : String) (given : Nat)
  | noPositional (name : String)
  | noKeywords (name : String)
  | unknownKeyword (name : String) (keyword : List Char)
  | keywordKind
  | missingArgument (name parameter : String)
  | argumentKind (name parameter : String) (k : Option Kind)
  | defaultWithSeveral (name : String)
  | printKind (parameter : String) (k : Kind)
  | pathKind (k : Kind)
  | attributeNameKind (k : Kind)
  | objectArguments
  | typeArguments
  -- attributes, kinds and exceptions
  | noAttribute (k : Kind) (name : List Char)
  | notCreatable (k : Kind)
  | classInfo (name : String)
  | notAClass
  | notAnException
  -- files
  | noSuchFile (path : List Char)
  | device (message : String)
  | closedFile

namespace Cause

def kind : Cause → ErrorKind
  | .overflow | .numeralTooLarge | .repetitionTooLong | .rangeBoundTooLarge | .rangeTooLong => .overflow
  | .zeroDivision => .zeroDivision
  | .negativeShift | .malformedNumeral .. | .baseOutOfRange | .notACodePoint | .zeroSliceStep
  | .zeroRangeStep | .absent .. | .notInList | .pairLength .. | .emptySequence _ | .emptySeparator
  | .byteOutOfRange | .bytesOutOfRange | .negativeSize | .unencodable .. | .undecodable ..
  | .incompleteFormat | .closedFile => .value
  | .outOfRange _ | .popFromEmptyList => .index
  | .popFromEmptySet => .key
  | .exhausted => .stopIteration
  | .unknownEncoding _ => .lookup
  | .noAttribute .. => .attribute
  | .noSuchFile _ => .fileNotFound
  | .device _ => .os
  | _ => .type

def plural (n : Nat) : String := if n = 1 then "argument" else "arguments"

/-- How a wrong number of positional arguments is worded. -/
def arityMessage (name : String) (least most given : Nat) : String :=
  if least = most then
    match least with
    | 0 => s!"{name}() takes no arguments ({given} given)"
    | 1 => s!"{name}() takes exactly one argument ({given} given)"
    | _ => s!"{name} expected {least} {plural least}, got {given}"
  else if given < least then s!"{name} expected at least {least} {plural least}, got {given}"
  else s!"{name} expected at most {most} {plural most}, got {given}"

/-- Two hexadecimal digits after `0x`. -/
def byteText (b : UInt8) : String := "0x" ++ String.ofList (Literal.hexByte b.toNat)

/-- The text of the one argument that most causes give their exception. -/
def message : Cause → String
  | .overflow => Checked.Error.message .overflow
  | .zeroDivision => Checked.Error.message .zeroDivision
  | .negativeShift => Checked.Error.message .negativeShift
  | .notAnInteger k => s!"'{k.name}' object cannot be interpreted as an integer"
  | .malformedNumeral base text =>
    s!"invalid literal for int() with base {base}: {String.ofList (Literal.ofText text)}"
  | .numeralTooLarge => "int too large to convert"
  | .notANumber k =>
    s!"int() argument must be a string, a bytes-like object or a real number, not '{k.name}'"
  | .baseGivenTwice => "argument for int() given by name ('base') and position (2)"
  | .missingNumeral => "int() missing string argument"
  | .baseOutOfRange => "int() base must be >= 2 and <= 36, or 0"
  | .baseWithoutText => "int() can't convert non-string with explicit base"
  | .notACodePoint => "chr() arg not in range(0x110000)"
  | .notACharacter length => s!"ord() expected a character, but string of length {length} found"
  | .notCharacterLike k => s!"ord() expected string of length 1, but {k.name} found"
  | .operands symbol left right =>
    s!"unsupported operand type(s) for {symbol}: '{left.name}' and '{right.name}'"
  | .comparison symbol left right =>
    s!"'{symbol}' not supported between instances of '{left.name}' and '{right.name}'"
  | .concatenation onto operand =>
    s!"can only concatenate {onto.name} (not \"{operand.name}\") to {onto.name}"
  | .byteConcatenation onto operand => s!"can't concat {operand.name} to {onto.name}"
  | .repetition operand => s!"can't multiply sequence by non-int of type '{operand.name}'"
  | .repetitionTooLong => "repeated sequence is too long"
  | .textMembership k => s!"'in <string>' requires string as left operand, not {k.name}"
  | .byteMembership k => s!"a bytes-like object is required, not '{k.name}'"
  | .subscript of key => s!"{of} indices must be integers or slices, not {key.name}"
  | .outOfRange what => s!"{what} index out of range"
  | .popFromEmptyList => "pop from empty list"
  | .popFromEmptySet => "pop from an empty set"
  | .zeroSliceStep => "slice step cannot be zero"
  | .sliceBound => "slice indices must be integers or None or have an __index__ method"
  | .zeroRangeStep => "range() arg 3 must not be zero"
  | .rangeBoundTooLarge => "range bound does not fit in 64 bits"
  | .rangeTooLong => "range length does not fit in 64 bits"
  | .unhashable k => s!"unhashable type: '{k.name}'"
  | .absent literal container => s!"{String.ofList literal} is not in {container.name}"
  | .notInList => "list.remove(x): x not in list"
  | .pairNotIterable index =>
    s!"cannot convert dictionary update sequence element #{index} to a sequence"
  | .pairLength index length =>
    s!"dictionary update sequence element #{index} has length {length}; 2 is required"
  | .notIterable k => s!"'{k.name}' object is not iterable"
  | .notAnIterator k => s!"'{k.name}' object is not an iterator"
  | .notReversible k => s!"'{k.name}' object is not reversible"
  | .exhausted => ""
  | .emptySequence name => s!"{name}() arg is an empty sequence"
  | .noLength k => s!"object of type '{k.name}' has no len()"
  | .emptySeparator => "empty separator"
  | .separatorKind k => s!"must be str or None, not {k.name}"
  | .stripKind => "strip arg must be None or str"
  | .needleKind k => s!"must be str, not {k.name}"
  | .affixKind m k => s!"{m.name} first arg must be str or a tuple of str, not {k.name}"
  | .affixItemKind m k => s!"tuple for {m.name} must only contain str, not {k.name}"
  | .joinItemKind index k => s!"sequence item {index}: expected str instance, {k.name} found"
  | .byteOutOfRange => "byte must be in range(0, 256)"
  | .bytesOutOfRange => "bytes must be in range(0, 256)"
  | .negativeSize => "negative count"
  | .notBytesLike onto k => s!"cannot convert '{k.name}' object to {onto.name}"
  | .decodingKind k => s!"decoding to str: need a bytes-like object, {k.name} found"
  | .encodingMissing => "string argument without an encoding"
  | .encodingWithoutText => "encoding without a string argument"
  | .unknownEncoding name => s!"unknown encoding: {String.ofList name}"
  | .unencodable encoding c position =>
    s!"'{String.ofList encoding}' codec can't encode character {String.ofList (Literal.ofChar c)} " ++
      s!"in position {position}"
  | .undecodable encoding b position =>
    s!"'{encoding}' codec can't decode byte {byteText b} in position {position}"
  | .sumOfTexts => "sum() can't sum strings [use ''.join(seq) instead]"
  | .sumOfBytes => "sum() can't sum bytes [use b''.join(seq) instead]"
  | .incompleteFormat => "incomplete format"
  | .missingFormatItem => "not enough arguments for format string"
  | .extraFormatItems => "not all arguments converted during string formatting"
  | .formatNeedsNumber k => s!"%d format: a real number is required, not {k.name}"
  | .formatNeedsInteger conversion k =>
    s!"%{conversion} format: an integer is required, not {k.name}"
  | .arity name least most given => arityMessage name least most given
  | .arityExactly name given => s!"{name} expected 1 argument, got {given}"
  | .noPositional name => s!"{name}() takes no positional arguments"
  | .noKeywords name => s!"{name}() takes no keyword arguments"
  | .unknownKeyword name keyword =>
    s!"'{String.ofList keyword}' is an invalid keyword argument for {name}()"
  | .keywordKind => "keywords must be strings"
  | .missingArgument name parameter => s!"{name}() missing required argument {parameter}"
  | .argumentKind name parameter k =>
    s!"{name}() argument {parameter} must be str" ++
      (match k with
        | some k => s!", not {k.name}"
        | none => "")
  | .defaultWithSeveral name =>
    s!"Cannot specify a default for {name}() with multiple positional arguments"
  | .printKind parameter k => s!"{parameter} must be None or a string, not {k.name}"
  | .pathKind k => s!"expected str, bytes or os.PathLike object, not {k.name}"
  | .attributeNameKind k => s!"attribute name must be string, not '{k.name}'"
  | .objectArguments => "object() takes no arguments"
  | .typeArguments => "type() takes 1 or 3 arguments"
  | .noAttribute k name => s!"'{k.name}' object has no attribute '{String.ofList name}'"
  | .notCreatable k => s!"cannot create '{k.name}' instances"
  | .classInfo name => s!"{name}() arg 2 must be a type, a tuple of types, or a union"
  | .notAClass => "issubclass() arg 1 must be a class"
  | .notAnException => "exceptions must derive from BaseException"
  | .noSuchFile path => s!"[Errno 2] No such file or directory: {String.ofList (Literal.ofText path)}"
  | .device message => message
  | .closedFile => "I/O operation on closed file."

/-- What a cause gives its exception: a message or nothing. -/
def text? : Cause → Option String
  | .exhausted => none
  | c => some c.message

end Cause

/-- An exception value: its kind and arguments, tagged as an object. -/
structure Exception where
  tag : Tag
  kind : ErrorKind
  args : List Value

def Exception.toValue (e : Exception) : Value := .error e.tag e.kind e.args

/-- Why an operation fails. -/
inductive Fault where
  | cause (c : Cause)
  /-- a key that is not there; the exception is given the key -/
  | missingKey (key : Value)
  | raised (e : Exception)
  | gap (g : Gap)
  /-- an iterator that outlasts every bound -/
  | unbounded

namespace Fault

/-- The kind of exception that a fault is, unless it is no exception. -/
def kind? : Fault → Option ErrorKind
  | .cause c => some c.kind
  | .missingKey _ => some .key
  | .raised e => some e.kind
  | .gap _ | .unbounded => none

/-- The fault is an exception of the kind or of one that inherits from it. -/
def isA (f : Fault) (k : Kind) : Bool :=
  match f.kind? with
  | some e => (Kind.error e).isA k
  | none => false

def unimplemented (operation : String) (subject : Kind) : Fault := .gap ⟨operation, subject.name⟩

end Fault

instance : Coe Cause Fault := ⟨.cause⟩

/-- A negative exponent is a gap, since its results are not integers. -/
def Fault.ofArithmetic : Checked.Error → Fault
  | .overflow => .cause .overflow
  | .zeroDivision => .cause .zeroDivision
  | .negativeShift => .cause .negativeShift
  | .negativeExponent => .unimplemented "pow with negative exponent" .int

end ObjectModel
