import ObjectModel.Call.Arguments

/-!
# Methods of sets
-/

namespace ObjectModel.SetMethod

/-- The keys of the items of an iterable, in order. -/
def keysOf (source : Value) : Action (List Key) := do
  match source with
  | .set s => return (← Action.readSet s).keys
  | _ =>
    let reversed ← Action.fold (fun (acc : List Key) v => do
      return .yield ((← Key.ofValue v) :: acc)) source []
    return reversed.reverse

/-- Adds the items of an iterable, once all of them have been read. -/
def update (r : Ref .set) (source : Value) : Action Unit := do
  let extra ← keysOf source
  Action.modifySet r (·.addAll extra)

def add (r : Ref .set) (v : Value) : Action Unit := do
  let key ← Key.ofValue v
  Action.modifySet r (·.add key)

/-- Removes a value and answers whether it was present. -/
def discard (r : Ref .set) (v : Value) : Action Bool := do
  let key ← Key.ofValue v
  let present := (← Action.readSet r).contains key
  Action.modifySet r (·.erase key)
  return present

def remove (r : Ref .set) (v : Value) : Action Unit := do
  if !(← discard r v) then throw (.missingKey v)

def pop (r : Ref .set) : Action Value := do
  let s ← Action.readSet r
  match s.keys with
  | [] => Action.fail .popFromEmptySet
  | k :: _ =>
    Action.modifySet r (·.erase k)
    return k.value

def supports : Method → Bool
  | .add | .discard | .remove | .update | .clear | .copy | .pop => true
  | _ => false

def call (r : Ref .set) (m : Method) (a : Arguments) : Action Value := do
  match m with
  | .add =>
    a.plain "add" 1 1
    a.positional.forM (add r)
    return .none
  | .discard =>
    a.plain "discard" 1 1
    a.positional.forM fun v => do let _ ← discard r v
    return .none
  | .remove =>
    a.plain "remove" 1 1
    a.positional.forM (remove r)
    return .none
  | .update =>
    a.noKeywords "set.update"
    a.positional.forM (update r)
    return .none
  | .clear =>
    a.plain "clear" 0 0
    Action.writeSet r ∅
    return .none
  | .copy =>
    a.plain "copy" 0 0
    Action.newSet (← Action.readSet r)
  | .pop =>
    a.plain "pop" 0 0
    pop r
  | _ => Action.unimplemented m.name .set

/-- A new set of values; the first unhashable one is refused. -/
def ofValues (vs : List Value) : Action Value := do
  let keys ← vs.mapM fun v => (Key.ofValue v : Except Cause Key)
  Action.newSet (KeySet.ofKeys keys)

end ObjectModel.SetMethod
