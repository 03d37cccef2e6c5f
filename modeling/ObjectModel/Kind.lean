/-!
# Kinds

Every value has a kind. Kinds form a single inheritance tree whose root is
`object`; a kind's lineage lists it and what it inherits from, nearest first.
-/

namespace ObjectModel

/-- Kinds of exception. -/
inductive ErrorKind where
  | baseException
  | exception
  | arithmetic
  | overflow
  | zeroDivision
  | assertion
  | attribute
  | lookup
  | index
  | key
  | os
  | fileNotFound
  | stopIteration
  | type
  | value
  deriving DecidableEq, Repr

namespace ErrorKind

def name : ErrorKind → String
  | .baseException => "BaseException"
  | .exception => "Exception"
  | .arithmetic => "ArithmeticError"
  | .overflow => "OverflowError"
  | .zeroDivision => "ZeroDivisionError"
  | .assertion => "AssertionError"
  | .attribute => "AttributeError"
  | .lookup => "LookupError"
  | .index => "IndexError"
  | .key => "KeyError"
  | .os => "OSError"
  | .fileNotFound => "FileNotFoundError"
  | .stopIteration => "StopIteration"
  | .type => "TypeError"
  | .value => "ValueError"

def all : List ErrorKind :=
  [.baseException, .exception, .arithmetic, .overflow, .zeroDivision, .assertion, .attribute,
    .lookup, .index, .key, .os, .fileNotFound, .stopIteration, .type, .value]

theorem mem_all (e : ErrorKind) : e ∈ all := by cases e <;> decide

def lineage : ErrorKind → List ErrorKind
  | .baseException => [.baseException]
  | .exception => [.exception, .baseException]
  | .overflow => [.overflow, .arithmetic, .exception, .baseException]
  | .zeroDivision => [.zeroDivision, .arithmetic, .exception, .baseException]
  | .index => [.index, .lookup, .exception, .baseException]
  | .key => [.key, .lookup, .exception, .baseException]
  | .fileNotFound => [.fileNotFound, .os, .exception, .baseException]
  | e => [e, .exception, .baseException]

end ErrorKind

/-- The part of a dict entry that a view or an iterator shows. -/
inductive Part where
  | keys
  | values
  | items
  deriving DecidableEq, Repr

inductive FileMode where
  | text
  | binary
  deriving DecidableEq, Repr

/-- Kinds of iterator over the built-in containers. -/
inductive CursorKind where
  | list
  | tuple
  | text
  | bytes
  | bytearray
  | set
  | dict (part : Part)
  | range
  | reversed
  | zip
  | enumerate
  deriving DecidableEq, Repr

inductive Kind where
  | object
  | type
  | none
  | bool
  | int
  | str
  | bytes
  | bytearray
  | tuple
  | list
  | dict
  | set
  | range
  | slice
  | function
  | view (part : Part)
  | cursor (form : CursorKind)
  | file (mode : FileMode)
  | error (e : ErrorKind)
  deriving DecidableEq, Repr

namespace Kind

def name : Kind → String
  | .object => "object"
  | .type => "type"
  | .none => "NoneType"
  | .bool => "bool"
  | .int => "int"
  | .str => "str"
  | .bytes => "bytes"
  | .bytearray => "bytearray"
  | .tuple => "tuple"
  | .list => "list"
  | .dict => "dict"
  | .set => "set"
  | .range => "range"
  | .slice => "slice"
  | .function => "builtin_function_or_method"
  | .view .keys => "dict_keys"
  | .view .values => "dict_values"
  | .view .items => "dict_items"
  | .cursor .list => "list_iterator"
  | .cursor .tuple => "tuple_iterator"
  | .cursor .text => "str_iterator"
  | .cursor .bytes => "bytes_iterator"
  | .cursor .bytearray => "bytearray_iterator"
  | .cursor .set => "set_iterator"
  | .cursor (.dict .keys) => "dict_keyiterator"
  | .cursor (.dict .values) => "dict_valueiterator"
  | .cursor (.dict .items) => "dict_itemiterator"
  | .cursor .range => "range_iterator"
  | .cursor .reversed => "reversed"
  | .cursor .zip => "zip"
  | .cursor .enumerate => "enumerate"
  | .file .text => "_io.TextIOWrapper"
  | .file .binary => "_io.BufferedReader"
  | .error e => e.name

/-- The kind and what it inherits from, nearest first. -/
def lineage : Kind → List Kind
  | .object => [.object]
  | .bool => [.bool, .int, .object]
  | .error e => e.lineage.map .error ++ [.object]
  | k => [k, .object]

def base? (k : Kind) : Option Kind := k.lineage[1]?

def isA (k other : Kind) : Bool := k.lineage.contains other

theorem lineage_eq_cons (k : Kind) :
    k.lineage = k :: (match k.base? with | some b => b.lineage | Option.none => []) := by
  cases k with
  | error e => cases e <;> rfl
  | _ => rfl

theorem isA_self (k : Kind) : k.isA k := by
  rw [isA, lineage_eq_cons]
  simp

theorem isA_object (k : Kind) : k.isA .object := by
  cases k with
  | error e => simp [isA, lineage]
  | _ => rfl

/-- The kinds that programs can name, in their standard order. -/
def named : List Kind :=
  [.bool, .bytearray, .bytes, .dict, .cursor .enumerate, .int, .list, .object, .range,
    .cursor .reversed, .set, .slice, .str, .tuple, .type, .cursor .zip] ++
    ErrorKind.all.map .error

def isConstructible (k : Kind) : Bool := named.contains k

def ofName? (name : String) : Option Kind := named.find? (·.name = name)

end Kind

end ObjectModel
