import ObjectModel.Heap.Order
import ObjectModel.Heap.Repr

/-!
# Sessions and actions

A session is the state that operations share: the heap, the printed output and
the files that can be opened. An action may change it and may fail; what it
changed before failing stays changed.
-/

namespace ObjectModel

/-- What opening a path yields: the bytes, and the device faults on opening
and after the last byte, if any. -/
structure FileSource where
  path : List Char
  content : List UInt8
  openFailure : Option String
  readFailure : Option String

structure Session where
  heap : Heap
  /-- printed text, in order -/
  output : Array Char
  files : List FileSource
  /-- whether text files fold `\r\n` to `\n` -/
  foldsNewlines : Bool

abbrev Action := ExceptT Fault (StateM Session)

instance : MonadLift (Except Cause) Action where
  monadLift
    | .ok a => pure a
    | .error c => throw (.cause c)

instance : MonadLift (Except Gap) Action where
  monadLift
    | .ok a => pure a
    | .error g => throw (.gap g)

namespace Action

variable {α : Type}

def fail (c : Cause) : Action α := throw (.cause c)

/-- The operation is not implemented for the kind of value. -/
def unimplemented (operation : String) (subject : Kind) : Action α :=
  throw (.unimplemented operation subject)

def heap : Action Heap := return (← get).heap

def modifyHeap (f : Heap → Heap) : Action Unit := modify fun s => { s with heap := f s.heap }

/-- A tag that no object has yet. -/
def freshTag : Action Tag :=
  modifyGet fun s => (s.heap.fresh, { s with heap := { s.heap with fresh := s.heap.fresh + 1 } })

def readList (r : Ref .list) : Action (List Value) := return (← heap).list r

def listSize (r : Ref .list) : Action Nat := return (← heap).listSize r

def readListItem? (r : Ref .list) (position : Nat) : Action (Option Value) :=
  return (← heap).listItem? r position

def readDict (r : Ref .dict) : Action Table := return (← heap).dict r

def readSet (r : Ref .set) : Action KeySet := return (← heap).set r

def readBytearray (r : Ref .bytearray) : Action (List UInt8) := return (← heap).bytearray r

def readBytearrayItem? (r : Ref .bytearray) (position : Nat) : Action (Option UInt8) :=
  return (← heap).bytearrayItem? r position

def readCursor (r : Ref .cursor) : Action Cursor := return (← heap).cursor r

def readFile (r : Ref .file) : Action File := return (← heap).file r

def writeList (r : Ref .list) (xs : List Value) : Action Unit := modifyHeap (·.putList r xs)

def appendList (r : Ref .list) (xs : List Value) : Action Unit := modifyHeap (·.appendList r xs)

def eraseListItem (r : Ref .list) (position : Nat) : Action Unit :=
  modifyHeap (·.eraseListItem r position)

def writeDict (r : Ref .dict) (t : Table) : Action Unit := modifyHeap (·.putDict r t)

def modifyDict (r : Ref .dict) (f : Table → Table) : Action Unit := modifyHeap (·.modifyDict r f)

def writeSet (r : Ref .set) (s : KeySet) : Action Unit := modifyHeap (·.putSet r s)

def modifySet (r : Ref .set) (f : KeySet → KeySet) : Action Unit := modifyHeap (·.modifySet r f)

def writeBytearray (r : Ref .bytearray) (data : List UInt8) : Action Unit :=
  modifyHeap (·.putBytearray r data)

def appendBytearray (r : Ref .bytearray) (data : List UInt8) : Action Unit :=
  modifyHeap (·.appendBytearray r data)

def writeCursor (r : Ref .cursor) (c : Cursor) : Action Unit := modifyHeap (·.putCursor r c)

def writeFile (r : Ref .file) (f : File) : Action Unit := modifyHeap (·.putFile r f)

def print (text : List Char) : Action Unit := modify fun s => { s with output := s.output ++ text }

/-- The printed output so far, which is then forgotten. -/
def takeOutput : Action (List Char) := modifyGet fun s => (s.output.toList, { s with output := #[] })

/-- The tag for an object that there may be already. -/
def tagUnless (shared : Bool) : Action Tag := if shared then return Tag.shared else freshTag

def newInt (n : Int64) : Action Value := return .int (← tagUnless (isSmall n)) n

/-- An element of a byte sequence. -/
def newByte (b : UInt8) : Action Value := newInt (Int64.ofNat b.toNat)

def newText (t : Text) : Action Value := return .str (← tagUnless t.isEmpty) t

def newChars (cs : List Char) : Action Value := newText (.ofChars cs)

def newBytes (data : List UInt8) : Action Value := return .bytes (← freshTag) data

def newTuple (items : List Value) : Action Value :=
  return .tuple (← tagUnless items.isEmpty) items

def newRange (r : Range) : Action Value := return .range (← freshTag) r

def newSlice (start stop step : Value) : Action Value := return .slice (← freshTag) start stop step

def newView (part : Part) (source : Ref .dict) : Action Value := return .view (← freshTag) part source

def newMethod (receiver : Value) (m : Method) : Action Value := return .method (← freshTag) receiver m

def newError (e : ErrorKind) (args : List Value) : Action Exception :=
  return ⟨← freshTag, e, args⟩

def newList (items : List Value) : Action Value :=
  modifyGet fun s => (.list ⟨s.heap.lists.size⟩,
    { s with heap := { s.heap with lists := s.heap.lists.push items.toArray } })

def newDict (t : Table) : Action Value :=
  modifyGet fun s => (.dict ⟨s.heap.dicts.size⟩,
    { s with heap := { s.heap with dicts := s.heap.dicts.push t } })

def newSet (keys : KeySet) : Action Value :=
  modifyGet fun s => (.set ⟨s.heap.sets.size⟩,
    { s with heap := { s.heap with sets := s.heap.sets.push keys } })

def newBytearray (data : List UInt8) : Action Value :=
  modifyGet fun s => (.bytearray ⟨s.heap.bytearrays.size⟩,
    { s with heap := { s.heap with bytearrays := s.heap.bytearrays.push data.toArray } })

def newCursor (form : CursorKind) (c : Cursor) : Action Value :=
  modifyGet fun s => (.cursor form ⟨s.heap.cursors.size⟩,
    { s with heap := { s.heap with cursors := s.heap.cursors.push c } })

def newFile (f : File) : Action Value :=
  modifyGet fun s => (.file f.mode ⟨s.heap.files.size⟩,
    { s with heap := { s.heap with files := s.heap.files.push f } })

def equals (a b : Value) : Action Bool := return (← heap).equals a b

def compare (op : Comparison) (a b : Value) : Action Bool := do
  match (← heap).compare op a b with
  | .ok r => return r
  | .error f => throw f

def repr (v : Value) : Action (List Char) := return (← heap).repr v

def str (v : Value) : Action (List Char) := return (← heap).str v

/-- The arguments of the exception that a cause is. -/
def argumentsOf (c : Cause) : Action (List Value) := do
  match c.text? with
  | some s => return [← newText (.ofString s)]
  | none => return []

/-- The exception value of a fault that is one. -/
def caught? : Fault → Action (Option Exception)
  | .raised e => return some e
  | .missingKey key => return some (← newError .key [key])
  | .cause c => return some (← newError c.kind (← argumentsOf c))
  | .gap _ | .unbounded => return none

/-- The fault of raising a value: an exception is raised itself, a kind of
exception as a new instance. -/
def faultOf (v : Value) : Action Fault :=
  match v with
  | .error tag e args => return .raised ⟨tag, e, args⟩
  | .type (.error e) => return .raised (← newError e [])
  | _ => return .cause .notAnException

/-- Runs an action on a session. -/
def runOn (action : Action α) (s : Session) : Except Fault α × Session := action.run s

end Action

def Session.start (files : List FileSource) (foldsNewlines : Bool) : Session :=
  ⟨.empty, #[], files, foldsNewlines⟩

end ObjectModel
