import ObjectModel.Session
import ObjectModel.Slice

/-!
# Subscripts

Reading, writing and deleting by position, by slice and by key. Positions are
counted from the end when negative.
-/

namespace ObjectModel

/-- A subscript of a sequence. -/
inductive Subscript where
  | index (i : Int)
  | slice (start stop step : Value)

namespace Subscript

def ofValue (what : String) : Value → Except Cause Subscript
  | .slice _ start stop step => .ok (.slice start stop step)
  | v =>
    match v.asInt? with
    | some i => .ok (.index i.toInt)
    | none => .error (.subscript what v.kind)

/-- The position that an index names in a sequence. -/
def position (what : String) (i : Int) (length : Nat) : Except Cause Nat :=
  let adjusted := if i < 0 then i + length else i
  if 0 ≤ adjusted ∧ adjusted < length then .ok adjusted.toNat else .error (.outOfRange what)

/-- A slice bound: an integer or nothing. -/
def bound (v : Value) : Except Cause (Option Int64) :=
  if v.isNone then .ok none
  else
    match v.asInt? with
    | some i => .ok (some i)
    | none => .error .sliceBound

/-- The slice of three bounds; the step is examined first. -/
def toSlice (start stop step : Value) : Except Cause Slice := do
  let stride := (← bound step).getD 1
  if h : stride = 0 then throw .zeroSliceStep
  else return ⟨← bound start, ← bound stop, stride, h⟩

def pick {α : Type} (what : String) (xs : List α) (i : Int) : Except Cause α := do
  match xs[← position what i xs.length]? with
  | some x => return x
  | none => throw (.outOfRange what)

/-- The selected characters of a text. An ASCII text is read from its bytes. -/
def selectText (s : Slice) (t : Text) : List Char :=
  if t.isAscii then (s.select t.bytes).map fun b => Char.ofNat b.toNat else s.select t.chars

end Subscript

namespace Action

def rangeItem (r : Range) (i : Int) : Action Value := do
  newInt (r.nth (← Subscript.position "range object" i r.count))

def getItem (source key : Value) : Action Value := do
  match source with
  | .str _ t =>
    match ← Subscript.ofValue "string" key with
    | .index i => newText (.ofChar (← Subscript.pick "string" t.chars i))
    | .slice start stop step => newChars (Subscript.selectText (← Subscript.toSlice start stop step) t)
  | .tuple _ items =>
    match ← Subscript.ofValue "tuple" key with
    | .index i => Subscript.pick "tuple" items i
    | .slice start stop step => newTuple ((← Subscript.toSlice start stop step).select items)
  | .list r =>
    match ← Subscript.ofValue "list" key with
    | .index i => Subscript.pick "list" (← readList r) i
    | .slice start stop step => newList ((← Subscript.toSlice start stop step).select (← readList r))
  | .bytes _ data =>
    match ← Subscript.ofValue "byte" key with
    | .index i => newByte (← Subscript.pick "index" data i)
    | .slice start stop step => newBytes ((← Subscript.toSlice start stop step).select data)
  | .bytearray r =>
    match ← Subscript.ofValue "bytearray" key with
    | .index i => newByte (← Subscript.pick "bytearray" (← readBytearray r) i)
    | .slice start stop step =>
      newBytearray ((← Subscript.toSlice start stop step).select (← readBytearray r))
  | .range _ r =>
    match ← Subscript.ofValue "range" key with
    | .index i => rangeItem r i
    | .slice start stop step =>
      match r.slice? (← Subscript.toSlice start stop step) with
      | some s => newRange s
      | none => fail .rangeBoundTooLarge
  | .dict r =>
    match (← readDict r).find? (← Key.ofValue key) with
    | some v => return v
    | none => throw (.missingKey key)
  | v => unimplemented "get_item" v.kind

def byteOf (outOfRange : Cause) (v : Value) : Except Cause UInt8 :=
  match v.asInt? with
  | none => .error (.notAnInteger v.kind)
  | some n => if 0 ≤ n.toInt ∧ n.toInt < 256 then .ok (UInt8.ofNat n.toInt.toNat) else .error outOfRange

def setItem (target key value : Value) : Action Unit := do
  match target with
  | .list r =>
    match ← Subscript.ofValue "list" key with
    | .index i =>
      let items ← readList r
      writeList r (items.set (← Subscript.position "list assignment" i items.length) value)
    | .slice .. => unimplemented "slice assignment" .list
  | .bytearray r =>
    match ← Subscript.ofValue "bytearray" key with
    | .index i =>
      let b ← byteOf .byteOutOfRange value
      let data ← readBytearray r
      writeBytearray r (data.set (← Subscript.position "bytearray" i data.length) b)
    | .slice .. => unimplemented "slice assignment" .bytearray
  | .dict r =>
    let k ← Key.ofValue key
    modifyDict r (·.insert k value)
  | v => unimplemented "set_item" v.kind

def delItem (target key : Value) : Action Unit := do
  match target with
  | .list r =>
    match ← Subscript.ofValue "list" key with
    | .index i =>
      eraseListItem r (← Subscript.position "list assignment" i (← listSize r))
    | .slice .. => unimplemented "slice deletion" .list
  | .bytearray r =>
    match ← Subscript.ofValue "bytearray" key with
    | .index i =>
      let data ← readBytearray r
      writeBytearray r (data.eraseIdx (← Subscript.position "bytearray" i data.length))
    | .slice .. => unimplemented "slice deletion" .bytearray
  | .dict r =>
    let k ← Key.ofValue key
    if (← readDict r).contains k then modifyDict r (·.erase k) else throw (.missingKey key)
  | v => unimplemented "del_item" v.kind

end Action

end ObjectModel
