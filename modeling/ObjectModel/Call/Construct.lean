import ObjectModel.Attribute

/-!
# Constructors

Calling a kind makes an instance of it.
-/

namespace ObjectModel.Construct

open Arguments (intOf)

def bool (a : Arguments) : Action Value := do
  a.plain "bool" 0 1
  match a.positional with
  | v :: _ => return .bool (← Action.truth v)
  | [] => return .bool false

/-- The integer that a text spells. -/
def parsed (base : Nat) (text : List Char) : Except Cause Int64 :=
  match Numeral.parse base text with
  | .ok n => .ok n
  | .error .malformed => .error (.malformedNumeral base text)
  | .error .tooLarge => .error .numeralTooLarge

/-- The integer that a value is or spells in decimal. -/
def intFrom (h : Heap) (v : Value) : Except Cause Int64 :=
  match v.asInt? with
  | some n => .ok n
  | none =>
    match v with
    | .str _ t => parsed 10 t.chars
    | _ =>
      match h.bytesOf? v with
      | some data => parsed 10 (Utf8.decodeLossy data)
      | none => .error (.notANumber v.kind)

/-- The integer that a text or a `bytes` spells in a base. -/
def intFromBase (v : Value) (base : Nat) : Except Cause Int64 :=
  match v with
  | .str _ t => parsed base t.chars
  | .bytes _ data => parsed base (Utf8.decodeLossy data)
  | _ => .error .baseWithoutText

def baseOf (v : Value) : Except Cause Nat := do
  let n ← intOf v
  if n = 0 ∨ (2 ≤ n ∧ n ≤ 36) then return n.toInt.toNat else throw .baseOutOfRange

/-- The base among the arguments, which may be given in two ways. -/
def baseArgument (a : Arguments) : Except Cause (Option Value) :=
  match a.at? 1, a.keyword? "base" with
  | some _, some _ => .error .baseGivenTwice
  | some b, none => .ok (some b)
  | none, b => .ok b

def int (a : Arguments) : Action Value := do
  a.allow "int" ["base"]
  a.arity "int" 0 2
  let base ← baseArgument a
  match a.positional, base with
  | [], none => Action.newInt 0
  | [], some _ => Action.fail .missingNumeral
  | v :: _, none => Action.newInt (← intFrom (← Action.heap) v)
  | v :: _, some b => Action.newInt (← intFromBase v (← baseOf b))

def str (a : Arguments) : Action Value := do
  a.allow "str" ["encoding", "errors"]
  a.arity "str" 0 3
  match a.positional, a.get? 1 "encoding" with
  | [], _ => Action.newText .empty
  | .str tag t :: _, none => return .str tag t
  | v :: _, none => Action.newChars (← Action.str v)
  | v :: _, some (.str _ encoding) =>
    match (← Action.heap).bytesOf? v with
    | some data => Action.newChars (← Encoding.decode encoding.chars data)
    | none => Action.fail (.decodingKind v.kind)
  | _ :: _, some e => Action.fail (.argumentKind "str" "'encoding'" (some e.kind))

/-- The bytes that the arguments of `bytes` and of `bytearray` describe. -/
def byteSource (k : Kind) (a : Arguments) : Action (List UInt8) := do
  a.allow k.name ["source", "encoding", "errors"]
  a.arity k.name 0 3
  match a.get? 0 "source", a.get? 1 "encoding" with
  | none, _ => return []
  | some (.str _ t), some (.str _ encoding) => Encoding.encode encoding.chars t.chars
  | some (.str ..), some _ => Action.fail (.argumentKind k.name "'encoding'" none)
  | some (.str ..), none => Action.fail .encodingMissing
  | some _, some _ => Action.fail .encodingWithoutText
  | some v, none =>
    match v.asInt? with
    | some n =>
      if n < 0 then Action.fail .negativeSize
      else return List.replicate n.toInt.toNat 0
    | none => if v.hasIter then BytesMethod.bytesOf v else Action.fail (.notBytesLike k v.kind)

def list (a : Arguments) : Action Value := do
  a.plain "list" 0 1
  match a.positional with
  | v :: _ => Action.newList (← Action.items v)
  | [] => Action.newList []

def tuple (a : Arguments) : Action Value := do
  a.plain "tuple" 0 1
  match a.positional with
  | .tuple tag items :: _ => return .tuple tag items
  | v :: _ => Action.newTuple (← Action.items v)
  | [] => Action.newTuple []

def set (a : Arguments) : Action Value := do
  a.plain "set" 0 1
  match a.positional with
  | v :: _ => Action.newSet (KeySet.ofKeys (← SetMethod.keysOf v))
  | [] => Action.newSet ∅

def dict (a : Arguments) : Action Value := do
  a.arity "dict" 0 1
  match ← Action.newDict ∅ with
  | .dict r =>
    a.positional.forM (DictMethod.update r)
    DictMethod.putAll r a.keywords
    return .dict r
  | v => return v

def newRange (start stop step : Int64) : Action Value := do
  match Range.make? start stop step with
  | some r => Action.newRange r
  | none => Action.fail .zeroRangeStep

def range (a : Arguments) : Action Value := do
  a.plain "range" 1 3
  let ints ← a.positional.mapM fun v => (intOf v : Except Cause Int64)
  match ints with
  | [stop] => newRange 0 stop 1
  | [start, stop] => newRange start stop 1
  | [start, stop, step] => newRange start stop step
  | _ => Action.unimplemented "call" .range

def slice (a : Arguments) : Action Value := do
  a.plain "slice" 1 3
  match a.positional with
  | [stop] => Action.newSlice .none stop .none
  | [start, stop] => Action.newSlice start stop .none
  | [start, stop, step] => Action.newSlice start stop step
  | _ => Action.unimplemented "call" .slice

def object (a : Arguments) : Action Value := do
  if !a.positional.isEmpty || !a.keywords.isEmpty then Action.fail .objectArguments
  return .object (← Action.freshTag)

def type (a : Arguments) : Action Value := do
  match a.positional with
  | [v] => return .type v.kind
  | [_, _, _] => Action.unimplemented "type() with three arguments" .type
  | _ => Action.fail .typeArguments

/-- A cursor that walks a sequence from its end: what can change is read as it
goes, the rest is turned around at once. -/
def backward (v : Value) : Action Cursor := do
  match v with
  | .str _ t => return .backwardText t.chars.reverse
  | .tuple _ items => return .items items.reverse
  | .bytes _ data => return .bytes data.reverse
  | .list r => return .backwardList r (← Action.readList r).length
  | .bytearray r => return .backwardBytearray r (← Action.readBytearray r).length
  | .range _ r =>
    -- The length has to fit in a word.
    let _ ← Action.length v
    return .backwardRange r r.count
  | .dict _ => Action.unimplemented "reversed" .dict
  | _ => Action.fail (.notReversible v.kind)

def reversed (a : Arguments) : Action Value := do
  a.plain "reversed" 1 1
  match a.positional with
  | v :: _ => Action.newCursor .reversed (← backward v)
  | [] => Action.fail (.arity "reversed" 1 1 0)

/-- An iterator that steps several in lockstep. -/
def zip (a : Arguments) : Action Value := do
  a.noKeywords "zip"
  Action.newCursor .zip (.zip (← a.positional.mapM Action.iter) false)

/-- The number that counting starts from. -/
def startOf (a : Arguments) : Except Cause Int64 :=
  match a.get? 1 "start" with
  | some v => intOf v
  | none => .ok 0

/-- An iterator that counts the items of another. -/
def enumerate (a : Arguments) : Action Value := do
  a.allow "enumerate" ["iterable", "start"]
  a.arity "enumerate" 0 2
  match a.get? 0 "iterable" with
  | none => Action.fail (.missingArgument "enumerate" "'iterable'")
  | some source =>
    let start ← startOf a
    Action.newCursor .enumerate (.enumerate (← Action.iter source) (some start))

def error (e : ErrorKind) (a : Arguments) : Action Value := do
  if !a.keywords.isEmpty then Action.fail (.noKeywords e.name)
  return (← Action.newError e a.positional).toValue

def instanceOf (k : Kind) (a : Arguments) : Action Value := do
  match k with
  | .bool => bool a
  | .int => int a
  | .str => str a
  | .bytes => Action.newBytes (← byteSource .bytes a)
  | .bytearray => Action.newBytearray (← byteSource .bytearray a)
  | .list => list a
  | .tuple => tuple a
  | .set => set a
  | .dict => dict a
  | .range => range a
  | .slice => slice a
  | .object => object a
  | .type => type a
  | .cursor .reversed => reversed a
  | .cursor .zip => zip a
  | .cursor .enumerate => enumerate a
  | .error e => error e a
  | _ => Action.fail (.notCreatable k)

end ObjectModel.Construct
