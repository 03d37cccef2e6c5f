import ObjectModel.Kind
import ObjectModel.Range
import ObjectModel.Text.Basic

/-!
# Values

Immutable values are trees; mutable ones are references into a heap. What can
be observed of sharing is an identity: an object that is made anew carries a
tag of its own, while small integers, empty texts, empty tuples and the
singletons have one identity each.
-/

namespace ObjectModel

/-- The built-in functions, in their standard order. -/
inductive Builtin where
  | abs
  | all
  | any
  | chr
  | getattr
  | hash
  | hex
  | isinstance
  | issubclass
  | iter
  | len
  | max
  | min
  | next
  | open
  | ord
  | print
  | repr
  | sorted
  | sum
  deriving DecidableEq, Repr

namespace Builtin

def catalogue : List Builtin :=
  [.abs, .all, .any, .chr, .getattr, .hash, .hex, .isinstance, .issubclass, .iter, .len, .max,
    .min, .next, .open, .ord, .print, .repr, .sorted, .sum]

def name : Builtin → String
  | .abs => "abs"
  | .all => "all"
  | .any => "any"
  | .chr => "chr"
  | .getattr => "getattr"
  | .hash => "hash"
  | .hex => "hex"
  | .isinstance => "isinstance"
  | .issubclass => "issubclass"
  | .iter => "iter"
  | .len => "len"
  | .max => "max"
  | .min => "min"
  | .next => "next"
  | .open => "open"
  | .ord => "ord"
  | .print => "print"
  | .repr => "repr"
  | .sorted => "sorted"
  | .sum => "sum"

def ofName? (name : String) : Option Builtin := catalogue.find? (·.name = name)

end Builtin

/-- The methods of the built-in kinds. -/
inductive Method where
  | append
  | extend
  | clear
  | count
  | index
  | pop
  | insert
  | remove
  | reverse
  | sort
  | copy
  | join
  | lower
  | upper
  | split
  | strip
  | startsWith
  | endsWith
  | replace
  | find
  | get
  | keys
  | values
  | items
  | setDefault
  | update
  | add
  | discard
  | decode
  | hex
  | readLine
  | read
  | close
  deriving DecidableEq, Repr

namespace Method

def all : List Method :=
  [.append, .extend, .clear, .count, .index, .pop, .insert, .remove, .reverse, .sort, .copy,
    .join, .lower, .upper, .split, .strip, .startsWith, .endsWith, .replace, .find, .get, .keys,
    .values, .items, .setDefault, .update, .add, .discard, .decode, .hex, .readLine, .read, .close]

def name : Method → String
  | .append => "append"
  | .extend => "extend"
  | .clear => "clear"
  | .count => "count"
  | .index => "index"
  | .pop => "pop"
  | .insert => "insert"
  | .remove => "remove"
  | .reverse => "reverse"
  | .sort => "sort"
  | .copy => "copy"
  | .join => "join"
  | .lower => "lower"
  | .upper => "upper"
  | .split => "split"
  | .strip => "strip"
  | .startsWith => "startswith"
  | .endsWith => "endswith"
  | .replace => "replace"
  | .find => "find"
  | .get => "get"
  | .keys => "keys"
  | .values => "values"
  | .items => "items"
  | .setDefault => "setdefault"
  | .update => "update"
  | .add => "add"
  | .discard => "discard"
  | .decode => "decode"
  | .hex => "hex"
  | .readLine => "readline"
  | .read => "read"
  | .close => "close"

def ofName? (name : String) : Option Method := all.find? (·.name = name)

end Method

/-- The stores that mutable content lives in. -/
inductive Shelf where
  | list
  | dict
  | set
  | bytearray
  | cursor
  | file
  deriving DecidableEq, Repr

/-- A reference to content on a shelf. -/
structure Ref (shelf : Shelf) where
  index : Nat
  deriving DecidableEq, Repr

/-- The tag of an object, by which it is told from others of its kind. -/
abbrev Tag := Nat

/-- The tag of the integers, texts and tuples that were made once for all. What is
made anew gets one of the tags after it. -/
def Tag.shared : Tag := 0

inductive Value where
  | none
  | bool (b : Bool)
  | int (tag : Tag) (n : Int64)
  | str (tag : Tag) (text : Text)
  | bytes (tag : Tag) (data : List UInt8)
  | tuple (tag : Tag) (items : List Value)
  | range (tag : Tag) (r : Range)
  | slice (tag : Tag) (start stop step : Value)
  | list (ref : Ref .list)
  | dict (ref : Ref .dict)
  | set (ref : Ref .set)
  | bytearray (ref : Ref .bytearray)
  | view (tag : Tag) (part : Part) (source : Ref .dict)
  | cursor (form : CursorKind) (ref : Ref .cursor)
  | file (mode : FileMode) (ref : Ref .file)
  | type (k : Kind)
  | builtin (f : Builtin)
  | method (tag : Tag) (receiver : Value) (m : Method)
  | error (tag : Tag) (e : ErrorKind) (args : List Value)
  | object (tag : Tag)

/-- What tells one object from another. -/
inductive Identity where
  | none
  | bool (b : Bool)
  | smallInt (n : Int64)
  | emptyText
  | emptyTuple
  | type (k : Kind)
  | builtin (f : Builtin)
  | tagged (tag : Tag)
  | stored (shelf : Shelf) (index : Nat)
  deriving DecidableEq, Repr

/-- Integers of which there is only one object each. -/
def isSmall (n : Int64) : Bool := -5 ≤ n && n ≤ 256

namespace Value

def kind : Value → Kind
  | .none => .none
  | .bool _ => .bool
  | .int .. => .int
  | .str .. => .str
  | .bytes .. => .bytes
  | .tuple .. => .tuple
  | .range .. => .range
  | .slice .. => .slice
  | .list _ => .list
  | .dict _ => .dict
  | .set _ => .set
  | .bytearray _ => .bytearray
  | .view _ part _ => .view part
  | .cursor form _ => .cursor form
  | .file mode _ => .file mode
  | .type _ => .type
  | .builtin _ => .function
  | .method .. => .function
  | .error _ e _ => .error e
  | .object _ => .object

def identity : Value → Identity
  | .none => .none
  | .bool b => .bool b
  | .int tag n => if tag = Tag.shared then .smallInt n else .tagged tag
  | .str tag _ => if tag = Tag.shared then .emptyText else .tagged tag
  | .bytes tag _ => .tagged tag
  | .tuple tag _ => if tag = Tag.shared then .emptyTuple else .tagged tag
  | .range tag _ => .tagged tag
  | .slice tag .. => .tagged tag
  | .list ref => .stored .list ref.index
  | .dict ref => .stored .dict ref.index
  | .set ref => .stored .set ref.index
  | .bytearray ref => .stored .bytearray ref.index
  | .view tag .. => .tagged tag
  | .cursor _ ref => .stored .cursor ref.index
  | .file _ ref => .stored .file ref.index
  | .type k => .type k
  | .builtin f => .builtin f
  | .method tag .. => .tagged tag
  | .error tag .. => .tagged tag
  | .object tag => .tagged tag

def is (a b : Value) : Bool := a.identity == b.identity

theorem is_iff {a b : Value} : a.is b ↔ a.identity = b.identity := by simp [is]

def isNone : Value → Bool
  | .none => true
  | _ => false

/-- The integer that an `int` or a `bool` stands for. -/
def asInt? : Value → Option Int64
  | .int _ n => some n
  | .bool b => some (if b then 1 else 0)
  | _ => Option.none

end Value

/-- Tells the stores apart in the numbers of what they hold. -/
def Shelf.lane : Shelf → Nat
  | .list => 1
  | .dict => 2
  | .set => 3
  | .bytearray => 4
  | .cursor => 5
  | .file => 6

/-- A number that names an object, for hashes and default spellings. -/
def Identity.code : Identity → Nat
  | .none => 1
  | .bool b => if b then 3 else 2
  | .smallInt n => (n.toInt + 16).toNat
  | .emptyText => 4
  | .emptyTuple => 5
  | .type k => 1024 + (Kind.named.idxOf k)
  | .builtin f => 2048 + (Builtin.catalogue.idxOf f)
  | .tagged tag => 4096 + 8 * tag
  | .stored shelf index => 4096 + 8 * index + shelf.lane

/-- The identities of containers, which their numbers tell apart. -/
def Identity.isContainer : Identity → Bool
  | .emptyTuple | .tagged _ | .stored .. => true
  | _ => false

theorem Value.isContainer_tuple (tag : Tag) (items : List Value) :
    (Value.tuple tag items).identity.isContainer = true := by
  rw [identity]
  split <;> rfl

theorem Shelf.lane_inj {s t : Shelf} (h : s.lane = t.lane) : s = t := by
  cases s <;> cases t <;> first | rfl | exact absurd h (by decide)

theorem Shelf.lane_bounds (s : Shelf) : 0 < s.lane ∧ s.lane < 8 := by cases s <;> decide

theorem Identity.isContainer_cases {a : Identity} (h : a.isContainer) :
    a = .emptyTuple ∨ (∃ tag, a = .tagged tag) ∨ ∃ shelf index, a = .stored shelf index := by
  cases a with
  | emptyTuple => exact .inl rfl
  | tagged tag => exact .inr (.inl ⟨tag, rfl⟩)
  | stored shelf index => exact .inr (.inr ⟨shelf, index, rfl⟩)
  | _ => cases h

theorem Identity.code_inj {a b : Identity} (ha : a.isContainer) (hb : b.isContainer)
    (h : a.code = b.code) : a = b := by
  rcases isContainer_cases ha with rfl | ⟨s, rfl⟩ | ⟨s, i, rfl⟩ <;>
    rcases isContainer_cases hb with rfl | ⟨t, rfl⟩ | ⟨t, j, rfl⟩ <;>
    simp only [code] at h
  · rfl
  · omega
  · omega
  · omega
  · exact congrArg _ (show @Eq Nat s t by omega)
  · have := t.lane_bounds
    omega
  · omega
  · have := s.lane_bounds
    omega
  · have hs := s.lane_bounds
    have ht := t.lane_bounds
    have hij : i = j := by omega
    rw [Shelf.lane_inj (s := s) (t := t) (by omega), hij]

end ObjectModel
