import ObjectModel.Call.Arguments

/-!
# Methods of dicts
-/

namespace ObjectModel.DictMethod

/-- Writes the entries of a table in their order. -/
def putAll (r : Ref .dict) (entries : Table) : Action Unit := do
  Action.modifyDict r (·.merge entries)

/-- An item of an iterable of pairs as an association. -/
def pairOf (index : Nat) (item : Value) : Action (Key × Value) := do
  if !item.hasIter then Action.fail (.pairNotIterable index)
  match ← Action.items item with
  | [k, v] => return (← Key.ofValue k, v)
  | parts => Action.fail (.pairLength index parts.length)

/-- Writes one pair of an iterable of pairs. -/
def putPair (r : Ref .dict) (index : Nat) (item : Value) : Action (ForInStep Nat) := do
  let e ← pairOf index item
  Action.modifyDict r (·.insert e.1 e.2)
  return .yield (index + 1)

/-- Merges a dict, or an iterable of pairs. Pairs before a failure stay
written. -/
def update (r : Ref .dict) (source : Value) : Action Unit := do
  match source with
  | .dict s => putAll r (← Action.readDict s)
  | _ =>
    let _ ← Action.fold (putPair r) source 0

def supports : Method → Bool
  | .get | .keys | .values | .items | .pop | .setDefault | .update | .clear | .copy => true
  | _ => false

def lookup (r : Ref .dict) (k : Value) : Action (Option Value) := do
  let key ← Key.ofValue k
  return (← Action.readDict r).find? key

def get (r : Ref .dict) (k : Value) (fallback : Option Value) : Action Value := do
  return (← lookup r k).getD (fallback.getD .none)

def pop (r : Ref .dict) (k : Value) (fallback : Option Value) : Action Value := do
  let key ← Key.ofValue k
  match (← Action.readDict r).find? key, fallback with
  | some v, _ =>
    Action.modifyDict r (·.erase key)
    return v
  | none, some v => return v
  | none, none => throw (.missingKey k)

def setDefault (r : Ref .dict) (k v : Value) : Action Value := do
  let key ← Key.ofValue k
  match (← Action.readDict r).find? key with
  | some found => return found
  | none =>
    Action.modifyDict r (·.insert key v)
    return v

def view (r : Ref .dict) (part : Part) (m : Method) (a : Arguments) : Action Value := do
  a.plain m.name 0 0
  Action.newView part r

def call (r : Ref .dict) (m : Method) (a : Arguments) : Action Value := do
  match m with
  | .get =>
    a.plain "get" 1 2
    match a.positional with
    | k :: _ => get r k (a.at? 1)
    | [] => Action.fail (.arity "get" 1 2 0)
  | .keys => view r .keys m a
  | .values => view r .values m a
  | .items => view r .items m a
  | .pop =>
    a.plain "pop" 1 2
    match a.positional with
    | k :: _ => pop r k (a.at? 1)
    | [] => Action.fail (.arity "pop" 1 2 0)
  | .setDefault =>
    a.plain "setdefault" 1 2
    match a.positional with
    | k :: _ => setDefault r k ((a.at? 1).getD .none)
    | [] => Action.fail (.arity "setdefault" 1 2 0)
  | .update =>
    a.arity "update" 0 1
    a.positional.forM (update r)
    putAll r a.keywords
    return .none
  | .clear =>
    a.plain "clear" 0 0
    Action.writeDict r ∅
    return .none
  | .copy =>
    a.plain "copy" 0 0
    Action.newDict (← Action.readDict r)
  | _ => Action.unimplemented m.name .dict

/-- One part of a dict display: an association, or a dict to be unpacked. -/
inductive DisplayItem where
  | pair (k v : Value)
  | unpack (source : Value)

/-- The table of a display, later parts overwriting earlier ones. -/
def tableOf (t : Table) : List DisplayItem → Action Table
  | [] => return t
  | .pair k v :: rest => do tableOf (t.insert (← Key.ofValue k) v) rest
  | .unpack (.dict s) :: rest => do tableOf (t.merge (← Action.readDict s)) rest
  | .unpack v :: _ => Action.unimplemented "** unpacking" v.kind

def ofDisplay (items : List DisplayItem) : Action Value := do Action.newDict (← tableOf ∅ items)

end ObjectModel.DictMethod
