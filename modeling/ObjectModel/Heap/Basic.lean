import ObjectModel.Heap.Store
import ObjectModel.Table

/-!
# The heap

Contents of the mutable objects: lists, dicts, sets and bytearrays, the places
of cursors and the state of open files.
-/

namespace ObjectModel

/-- Where an iterator stands. -/
inductive Cursor where
  /-- a live position in a list; once exhausted it stays so -/
  | list (source : Ref .list) (position : Nat) (done : Bool)
  /-- a live position among the entries of a dict -/
  | dict (part : Part) (source : Ref .dict) (position : Nat) (done : Bool)
  /-- the items still to come -/
  | items (rest : List Value)
  /-- the bytes still to come -/
  | bytes (rest : List UInt8)
  /-- a byte offset in a text and the characters after it -/
  | text (offset : Nat) (rest : List Char)
  /-- the characters still to come, last first in their text -/
  | backwardText (rest : List Char)
  /-- the next element of a range and the number of elements to come -/
  | range (next step : Int64) (remaining : Nat)
  /-- a live walk towards the front of a list; the positions below `bound` are
  to come -/
  | backwardList (source : Ref .list) (bound : Nat)
  /-- a live walk towards the front of a bytearray -/
  | backwardBytearray (source : Ref .bytearray) (bound : Nat)
  /-- a walk towards the front of a range -/
  | backwardRange (source : Range) (bound : Nat)
  /-- iterators in lockstep -/
  | zip (inputs : List Value) (done : Bool)
  /-- an iterator and its counter, which may have stepped past the last word -/
  | enumerate (input : Value) (counter : Option Int64)

instance : Inhabited Cursor := ⟨.items []⟩

/-- A file handle: what is still to be read, and the fault of the device, if
any, that comes after it. -/
structure File where
  path : List Char
  mode : FileMode
  /-- text is shown with `\r\n` as `\n` -/
  foldsNewlines : Bool
  pending : List UInt8
  failure : Option String
  isOpen : Bool

instance : Inhabited File := ⟨⟨[], .text, false, [], none, false⟩⟩

structure Heap where
  lists : Store (Array Value)
  dicts : Store Table
  sets : Store KeySet
  bytearrays : Store (Array UInt8)
  cursors : Store Cursor
  files : Store File
  /-- the next unused tag -/
  fresh : Tag

namespace Heap

def empty : Heap := ⟨.empty, .empty, .empty, .empty, .empty, .empty, Tag.shared + 1⟩

def list (h : Heap) (r : Ref .list) : List Value := (h.lists.get r.index).toList

def listSize (h : Heap) (r : Ref .list) : Nat := (h.lists.get r.index).size

def findListItem? (h : Heap) (r : Ref .list) (p : Value → Bool) : Option Nat :=
  (h.lists.get r.index).findIdx? p

def listItem? (h : Heap) (r : Ref .list) (position : Nat) : Option Value :=
  (h.lists.get r.index)[position]?

def dict (h : Heap) (r : Ref .dict) : Table := h.dicts.get r.index

def set (h : Heap) (r : Ref .set) : KeySet := h.sets.get r.index

def bytearray (h : Heap) (r : Ref .bytearray) : List UInt8 := (h.bytearrays.get r.index).toList

def bytearrayItem? (h : Heap) (r : Ref .bytearray) (position : Nat) : Option UInt8 :=
  (h.bytearrays.get r.index)[position]?

def cursor (h : Heap) (r : Ref .cursor) : Cursor := h.cursors.get r.index

def file (h : Heap) (r : Ref .file) : File := h.files.get r.index

def putList (h : Heap) (r : Ref .list) (xs : List Value) : Heap :=
  { h with lists := h.lists.set r.index xs.toArray }

/-- Adds items at the end of a list where it is. -/
def appendList (h : Heap) (r : Ref .list) (xs : List Value) : Heap :=
  { h with lists := h.lists.modify r.index (· ++ xs) }

/-- Removes an item of a list where it is. -/
def eraseListItem (h : Heap) (r : Ref .list) (position : Nat) : Heap :=
  { h with lists := h.lists.modify r.index (·.eraseIdxIfInBounds position) }

def putDict (h : Heap) (r : Ref .dict) (t : Table) : Heap :=
  { h with dicts := h.dicts.set r.index t }

/-- Changes a dict where it is. -/
def modifyDict (h : Heap) (r : Ref .dict) (f : Table → Table) : Heap :=
  { h with dicts := h.dicts.modify r.index f }

def putSet (h : Heap) (r : Ref .set) (s : KeySet) : Heap :=
  { h with sets := h.sets.set r.index s }

/-- Changes a set where it is. -/
def modifySet (h : Heap) (r : Ref .set) (f : KeySet → KeySet) : Heap :=
  { h with sets := h.sets.modify r.index f }

/-- Adds bytes at the end of a bytearray where it is. -/
def appendBytearray (h : Heap) (r : Ref .bytearray) (data : List UInt8) : Heap :=
  { h with bytearrays := h.bytearrays.modify r.index (· ++ data) }

def putBytearray (h : Heap) (r : Ref .bytearray) (data : List UInt8) : Heap :=
  { h with bytearrays := h.bytearrays.set r.index data.toArray }

def putCursor (h : Heap) (r : Ref .cursor) (c : Cursor) : Heap :=
  { h with cursors := h.cursors.set r.index c }

def putFile (h : Heap) (r : Ref .file) (f : File) : Heap :=
  { h with files := h.files.set r.index f }

theorem listItem?_eq (h : Heap) (r : Ref .list) (position : Nat) :
    h.listItem? r position = (h.list r)[position]? := by simp [listItem?, list]

theorem bytearrayItem?_eq (h : Heap) (r : Ref .bytearray) (position : Nat) :
    h.bytearrayItem? r position = (h.bytearray r)[position]? := by simp [bytearrayItem?, bytearray]

theorem listSize_eq (h : Heap) (r : Ref .list) : h.listSize r = (h.list r).length := by
  simp [listSize, list]

@[simp] theorem appendList_eq (h : Heap) (r : Ref .list) (xs : List Value) :
    h.appendList r xs = h.putList r (h.list r ++ xs) := by
  have hc (c : Array Value) : c ++ xs = (c.toList ++ xs).toArray := Array.ext' (by simp)
  simp [appendList, putList, list, hc]

@[simp] theorem eraseListItem_eq (h : Heap) (r : Ref .list) (position : Nat) :
    h.eraseListItem r position = h.putList r ((h.list r).eraseIdx position) := by
  have hc (c : Array Value) : c.eraseIdxIfInBounds position = (c.toList.eraseIdx position).toArray :=
    Array.ext' (by simp)
  simp [eraseListItem, putList, list, hc]

@[simp] theorem appendBytearray_eq (h : Heap) (r : Ref .bytearray) (data : List UInt8) :
    h.appendBytearray r data = h.putBytearray r (h.bytearray r ++ data) := by
  have hc (c : Array UInt8) : c ++ data = (c.toList ++ data).toArray := Array.ext' (by simp)
  simp [appendBytearray, putBytearray, bytearray, hc]

@[simp] theorem list_putList (h : Heap) (r : Ref .list) (xs : List Value) :
    (h.putList r xs).list r = xs := by simp [list, putList]

@[simp] theorem dict_putDict (h : Heap) (r : Ref .dict) (t : Table) :
    (h.putDict r t).dict r = t := by simp [dict, putDict]

@[simp] theorem modifyDict_eq (h : Heap) (r : Ref .dict) (f : Table → Table) :
    h.modifyDict r f = h.putDict r (f (h.dict r)) := by simp [modifyDict, putDict, dict]

@[simp] theorem modifySet_eq (h : Heap) (r : Ref .set) (f : KeySet → KeySet) :
    h.modifySet r f = h.putSet r (f (h.set r)) := by simp [modifySet, putSet, set]

@[simp] theorem set_putSet (h : Heap) (r : Ref .set) (s : KeySet) :
    (h.putSet r s).set r = s := by simp [set, putSet]

@[simp] theorem bytearray_putBytearray (h : Heap) (r : Ref .bytearray) (data : List UInt8) :
    (h.putBytearray r data).bytearray r = data := by simp [bytearray, putBytearray]

@[simp] theorem cursor_putCursor (h : Heap) (r : Ref .cursor) (c : Cursor) :
    (h.putCursor r c).cursor r = c := by simp [cursor, putCursor]

@[simp] theorem file_putFile (h : Heap) (r : Ref .file) (f : File) :
    (h.putFile r f).file r = f := by simp [file, putFile]

theorem list_putList_of_ne (h : Heap) {r s : Ref .list} (xs : List Value) (hs : s ≠ r) :
    (h.putList r xs).list s = h.list s := by
  refine congrArg Array.toList (Store.get_set_ne _ _ fun hi => hs ?_)
  cases r; cases s; cases hi; rfl

/-- Contents of a `bytes` or a `bytearray`. -/
def bytesOf? (h : Heap) : Value → Option (List UInt8)
  | .bytes _ data => some data
  | .bytearray r => some (h.bytearray r)
  | _ => none

/-- No path through distinct containers is longer. -/
def depth (h : Heap) : Nat := h.lists.size + h.dicts.size + 1

end Heap

end ObjectModel
