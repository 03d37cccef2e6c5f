import ObjectModel.Call.Arguments
import ObjectModel.Sorting
import ObjectModel.Operator

/-!
# Methods of lists and tuples
-/

namespace ObjectModel.SequenceMethod

/-- The least position within clamped bounds whose item equals the value. -/
def indexFrom? (equal : Value → Value → Bool) (v : Value) (start stop : Nat) :
    Nat → List Value → Option Nat
  | _, [] => none
  | i, x :: xs =>
    if start ≤ i ∧ i < stop ∧ equal x v then some i else indexFrom? equal v start stop (i + 1) xs

def indexOf? (h : Heap) (items : List Value) (v : Value) (start stop : Int64) : Option Nat :=
  indexFrom? h.equals v (clampBound items.length start.toInt)
    (clampBound items.length stop.toInt) 0 items

def countOf (h : Heap) (items : List Value) (v : Value) : Nat := items.countP (h.equals · v)

def index (items : List Value) (k : Kind) (a : Arguments) : Action Value := do
  a.plain "index" 1 3
  match a.positional with
  | v :: _ =>
    let start := (← a.int? 1).getD 0
    let stop := (← a.int? 2).getD Int64.maxValue
    let h ← Action.heap
    match indexOf? h items v start stop with
    | some i => Action.newInt (Int64.ofNat i)
    | none => Action.fail (.absent (h.repr v) k)
  | [] => Action.fail (.arity "index" 1 3 0)

def count (items : List Value) (a : Arguments) : Action Value := do
  a.plain "count" 1 1
  match a.positional with
  | v :: _ => Action.newInt (Int64.ofNat (countOf (← Action.heap) items v))
  | [] => Action.fail (.arity "count" 1 1 0)

def supportsTuple : Method → Bool
  | .count | .index => true
  | _ => false

def callTuple (items : List Value) (m : Method) (a : Arguments) : Action Value := do
  match m with
  | .count => count items a
  | .index => index items .tuple a
  | _ => Action.unimplemented m.name .tuple

/-- The keyword-only arguments of sorting. -/
def sortOptions (name : String) (a : Arguments) : Action (Option Value × Bool) := do
  a.allow name ["key", "reverse"]
  let key := Arguments.unlessNone (a.keyword? "key")
  match a.keyword? "reverse" with
  | some v => return (key, ← Action.truth v)
  | none => return (key, false)

/-- The score of each item, in order. -/
def scores (apply : Value → Value → Action Value) (key : Value) :
    List Value → Action (List (Value × Value))
  | [] => return []
  | v :: vs => do
    let score ← apply key v
    return (score, v) :: (← scores apply key vs)

/-- The items sorted by their scores under a key function. -/
def sortedBy (apply : Value → Value → Action Value) (key : Value) (reverse : Bool)
    (items : List Value) : Action (List Value) := do
  let scored ← scores apply key items
  match Sorting.sortScored (← Action.heap) reverse scored with
  | (sorted, none) => return sorted.map (·.2)
  | (_, some f) => throw f

/-- The items sorted, by scores if there is a key function. -/
def sorted (apply : Value → Value → Action Value) (key : Option Value) (reverse : Bool)
    (items : List Value) : Action (List Value) := do
  match key with
  | some f => sortedBy apply f reverse items
  | none =>
    match Sorting.sortValues (← Action.heap) reverse items with
    | (sorted, none) => return sorted
    | (_, some f) => throw f

/-- Sorts a list where it is. Its items are taken out while they are compared,
and put back, rearranged, when a comparison fails. -/
def sortInPlace (r : Ref .list) (reverse : Bool) : Action Unit := do
  let items ← Action.readList r
  Action.writeList r []
  let (sorted, failure) := Sorting.sortValues (← Action.heap) reverse items
  Action.writeList r sorted
  match failure with
  | none => return ()
  | some f => throw f

def sort (apply : Value → Value → Action Value) (r : Ref .list) (a : Arguments) : Action Value := do
  let (key, reverse) ← sortOptions "sort" a
  if !a.positional.isEmpty then Action.fail (.noPositional "sort")
  match key with
  | none => sortInPlace r reverse
  | some f => Action.writeList r (← sortedBy apply f reverse (← Action.readList r))
  return .none

/-- The place of an insertion: counted from the end when negative, and moved
into the list. -/
def insertItem (items : List Value) (i : Int64) (v : Value) : List Value :=
  items.insertIdx (clampBound items.length i.toInt) v

def pop (r : Ref .list) (i : Int64) : Action Value := do
  let size ← Action.listSize r
  if size = 0 then Action.fail .popFromEmptyList
  let position ← Subscript.position "pop" i.toInt size
  match ← Action.readListItem? r position with
  | some v =>
    Action.eraseListItem r position
    return v
  | none => Action.fail (.outOfRange "pop")

def remove (r : Ref .list) (v : Value) : Action Unit := do
  let h ← Action.heap
  match h.findListItem? r (h.equals · v) with
  | some i => Action.eraseListItem r i
  | none => Action.fail .notInList

def supportsList : Method → Bool
  | .append | .extend | .clear | .count | .index | .pop | .insert | .remove | .reverse | .sort
  | .copy => true
  | _ => false

def callList (apply : Value → Value → Action Value) (r : Ref .list) (m : Method) (a : Arguments) :
    Action Value := do
  match m with
  | .append =>
    a.plain "append" 1 1
    Action.appendList r a.positional
    return .none
  | .extend =>
    a.plain "extend" 1 1
    a.positional.forM (Action.extendList r)
    return .none
  | .clear =>
    a.plain "clear" 0 0
    Action.writeList r []
    return .none
  | .count => count (← Action.readList r) a
  | .index => index (← Action.readList r) .list a
  | .pop =>
    a.plain "pop" 0 1
    pop r ((← a.int? 0).getD (-1))
  | .insert =>
    a.plain "insert" 2 2
    match ← a.int? 0, a.at? 1 with
    | some i, some v =>
      Action.writeList r (insertItem (← Action.readList r) i v)
      return .none
    | _, _ => Action.fail (.notAnInteger .none)
  | .remove =>
    a.plain "remove" 1 1
    a.positional.forM (remove r)
    return .none
  | .reverse =>
    a.plain "reverse" 0 0
    Action.writeList r (← Action.readList r).reverse
    return .none
  | .sort => sort apply r a
  | .copy =>
    a.plain "copy" 0 0
    Action.newList (← Action.readList r)
  | _ => Action.unimplemented m.name .list

end ObjectModel.SequenceMethod
