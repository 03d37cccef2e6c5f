import ObjectModel.FormatSpec
import ObjectModel.Iteration
import ObjectModel.Subscript
import ObjectModel.Text.Search

/-!
# Capabilities

What values answer about themselves: truth, length, membership, formatting, and
whether they iterate, index or have a length.
-/

namespace ObjectModel

namespace Value

/-- The value stands for an index. -/
def hasIndex (v : Value) : Bool := v.asInt?.isSome

def hasLen : Value → Bool
  | .str .. | .bytes .. | .bytearray _ | .tuple .. | .list _ | .dict _ | .set _ | .range ..
  | .view .. => true
  | _ => false

end Value

/-- Empty containers, zero, `False` and `None` are false; all else is true. -/
def Heap.truth (h : Heap) : Value → Bool
  | .none => false
  | .bool b => b
  | .int _ n => n != 0
  | .str _ t => !t.isEmpty
  | .bytes _ data => !data.isEmpty
  | .bytearray r => !(h.bytearray r).isEmpty
  | .tuple _ items => !items.isEmpty
  | .list r => !(h.list r).isEmpty
  | .dict r => !(h.dict r).isEmpty
  | .set r => !(h.set r).isEmpty
  | .range _ r => r.count != 0
  | .view _ _ r => !(h.dict r).isEmpty
  | _ => true

/-- Number of items; none for kinds without a length. -/
def Heap.length? (h : Heap) : Value → Option Nat
  | .str _ t => some t.count
  | .bytes _ data => some data.length
  | .bytearray r => some (h.bytearray r).length
  | .tuple _ items => some items.length
  | .list r => some (h.list r).length
  | .dict r => some (h.dict r).size
  | .set r => some (h.set r).size
  | .range _ r => some r.count
  | .view _ _ r => some (h.dict r).size
  | _ => none

/-- The needle occurs as a contiguous run. -/
def hasRun (needle data : List UInt8) : Bool := (Occurrence.cut? UInt8.toUInt64 needle data).isSome

namespace Action

def truth (v : Value) : Action Bool := return (← heap).truth v

def wordOf (n : Nat) : Action Int64 := (Checked.narrow? n).elim (fail .rangeTooLong) pure

def length (v : Value) : Action Int64 := do
  match (← heap).length? v with
  | none => unimplemented "len" v.kind
  | some n => wordOf n

def hash (v : Value) : Action Int64 := v.hash

def indexValue (v : Value) : Action Int64 := do
  match v.asInt? with
  | some n => return n
  | none => unimplemented "index_value" v.kind

def intValue (v : Value) : Action Int64 := do
  match v.asInt? with
  | some n => return n
  | none => unimplemented "int_value" v.kind

def format (v : Value) (spec : List Char) : Action (List Char) := do
  match v with
  | .bool b =>
    if spec.isEmpty then repr v else FormatSpec.formatInt (if b then 1 else 0) spec
  | .int _ n => FormatSpec.formatInt n spec
  | .str _ t => FormatSpec.formatText t.chars spec
  | _ => unimplemented "format" v.kind

/-- Whether some item equals the value. -/
def anyEqual (xs : List Value) (v : Value) : Action Bool := do
  let h ← heap
  return xs.any (h.equals · v)

/-- Membership in a byte sequence: of one byte, or of a run of bytes. -/
def bytesContain (data : List UInt8) (v : Value) : Action Bool := do
  match v.asInt? with
  | some _ => return data.contains (← byteOf .byteOutOfRange v)
  | none =>
    match (← heap).bytesOf? v with
    | some needle => return hasRun needle data
    | none => fail (.byteMembership v.kind)

def contains (container v : Value) : Action Bool := do
  match container with
  | .str _ t =>
    match v with
    | .str _ needle => return Text.contains needle.chars t.chars
    | _ => fail (.textMembership v.kind)
  | .bytes _ data => bytesContain data v
  | .bytearray r => bytesContain (← readBytearray r) v
  | .tuple _ items => anyEqual items v
  | .list r => anyEqual (← readList r) v
  | .dict r => return (← readDict r).contains (← Key.ofValue v)
  | .set r => return (← readSet r).contains (← Key.ofValue v)
  | .range _ r => return (v.asInt?.bind r.indexOf?).isSome
  | .view _ .keys r => return (← readDict r).contains (← Key.ofValue v)
  | .view _ .values r => anyEqual (← readDict r).values v
  | .view _ .items r =>
    match v with
    | .tuple _ [k, x] =>
      -- An unhashable key cannot be present.
      match Key.ofValue k with
      | .error _ => return false
      | .ok key =>
        match (← readDict r).find? key with
        | some found => equals found x
        | none => return false
    | _ => return false
  | _ => unimplemented "contains" container.kind

end Action

end ObjectModel
