import ObjectModel.Attribute
import ObjectModel.Call.ClassInfo

/-!
# Built-in functions
-/

namespace ObjectModel.Function

open Arguments (intOf unlessNone)

/-- A call with one argument. -/
abbrev Apply := Value → Value → Action Value

/-- The only positional argument of a function. -/
def sole (name : String) (a : Arguments) : Except Cause Value := do
  a.plain name 1 1
  match a.positional with
  | v :: _ => return v
  | [] => throw (.arity name 1 1 0)

/-- The two positional arguments of a function. -/
def pair (name : String) (a : Arguments) : Except Cause (Value × Value) := do
  a.plain name 2 2
  match a.positional with
  | x :: y :: _ => return (x, y)
  | _ => throw (.arity name 2 2 a.positional.length)

/-- Whether some item has a truth value; later items are not asked for. -/
def anyTruth (sought : Bool) (v : Value) : Action Bool :=
  Action.fold (fun _ x => do
    return if (← Action.truth x) = sought then .done true else .yield false) v false

def all (a : Arguments) : Action Value := do
  return .bool (!(← anyTruth false (← sole "all" a)))

def any (a : Arguments) : Action Value := do
  return .bool (← anyTruth true (← sole "any" a))

def chr (a : Arguments) : Action Value := do
  let n := (← intOf (← sole "chr" a)).toInt
  if n < 0 ∨ 0x10FFFF < n then Action.fail .notACodePoint
  else if 0xD800 ≤ n ∧ n < 0xE000 then Action.unimplemented "chr() of a surrogate code point" .int
  else Action.newText (.ofChar (Char.ofNat n.toNat))

def ord (a : Arguments) : Action Value := do
  let v ← sole "ord" a
  match v with
  | .str _ t =>
    match t.chars with
    | [c] => Action.newInt (Int64.ofNat c.toNat)
    | _ => Action.fail (.notACharacter t.count)
  | _ =>
    match (← Action.heap).bytesOf? v with
    | some [b] => Action.newByte b
    | some data => Action.fail (.notACharacter data.length)
    | none => Action.fail (.notCharacterLike v.kind)

def hex (a : Arguments) : Action Value := do
  Action.newChars (Numeral.hex (← intOf (← sole "hex" a)).toInt)

/-- An attribute by name; a fallback stands for one that is missing. -/
def getattr (a : Arguments) : Action Value := do
  a.plain "getattr" 2 3
  match a.positional with
  | v :: .str _ name :: rest =>
    match rest with
    | [] => Action.getAttr v name.chars
    | fallback :: _ =>
      tryCatch (Action.getAttr v name.chars) fun f =>
        if f.isA (.error .attribute) then return fallback else throw f
  | _ :: name :: _ => Action.fail (.attributeNameKind name.kind)
  | _ => Action.fail (.arity "getattr" 2 3 a.positional.length)

def len (a : Arguments) : Action Value := do
  let v ← sole "len" a
  if v.hasLen then Action.newInt (← Action.length v) else Action.fail (.noLength v.kind)

/-- One item of an iterator; a fallback stands for exhaustion. -/
def next (a : Arguments) : Action Value := do
  a.plain "next" 1 2
  match a.positional with
  | it :: rest =>
    -- An iterator is an iterable whose cursor is the value itself.
    if !it.hasIter then Action.fail (.notAnIterator it.kind)
    if !(← Action.iter it).is it then Action.fail (.notAnIterator it.kind)
    match ← Action.next it, rest with
    | some v, _ => return v
    | none, fallback :: _ => return fallback
    | none, [] => Action.fail .exhausted
  | [] => Action.fail (.arity "next" 1 2 0)

/-- A separator of printed texts. -/
def separator (a : Arguments) (key : String) (fallback : List Char) : Except Cause (List Char) :=
  match unlessNone (a.keyword? key) with
  | none => .ok fallback
  | some (.str _ t) => .ok t.chars
  | some v => .error (.printKind key v.kind)

def print (a : Arguments) : Action Value := do
  a.allow "print" ["sep", "end", "file", "flush"]
  if (unlessNone (a.keyword? "file")).isSome then Action.unimplemented "print to a file" .function
  let sep ← separator a "sep" [' ']
  let stop ← separator a "end" ['\n']
  let h ← Action.heap
  Action.print (sep.intercalate (a.positional.map h.str) ++ stop)
  return .none

def sorted (apply : Apply) (a : Arguments) : Action Value := do
  let (key, reverse) ← SequenceMethod.sortOptions "sorted" a
  match a.positional with
  | [v] => Action.newList (← SequenceMethod.sorted apply key reverse (← Action.items v))
  | vs => Action.fail (.arityExactly "sorted" vs.length)

/-- What a sum starts from. -/
def startOf (a : Arguments) : Action Value :=
  match a.get? 1 "start" with
  | some v => return v
  | none => Action.newInt 0

def sum (a : Arguments) : Action Value := do
  a.allow "sum" ["start"]
  a.arity "sum" 1 2
  let start ← startOf a
  match start with
  | .str .. => Action.fail .sumOfTexts
  | .bytes .. | .bytearray _ => Action.fail .sumOfBytes
  | _ =>
    match a.positional with
    | v :: _ => Action.fold (fun total x => do return .yield (← Action.binary .add total x)) v start
    | [] => Action.fail (.arity "sum" 1 2 0)

/-- Which of the items `min` and `max` look for. -/
inductive Extreme where
  | least
  | greatest
  deriving DecidableEq, Repr

def Extreme.name : Extreme → String
  | .least => "min"
  | .greatest => "max"

/-- How a score must compare with the best so far to replace it; ties keep the
first. -/
def Extreme.comparison : Extreme → Comparison
  | .least => .lt
  | .greatest => .gt

/-- The score of an item: itself, or what the key function makes of it. -/
def scoreOf (apply : Apply) (key : Option Value) (v : Value) : Action Value :=
  match key with
  | some f => apply f v
  | none => return v

/-- The best of the remaining items and of the best so far, with its score. -/
def bestOf (apply : Apply) (which : Extreme) (key : Option Value) :
    Option (Value × Value) → List Value → Action (Option Value)
  | best, [] => return best.map (·.2)
  | none, v :: vs => do bestOf apply which key (some (← scoreOf apply key v, v)) vs
  | some (score, best), v :: vs => do
    let s ← scoreOf apply key v
    if ← Action.compare which.comparison s score then bestOf apply which key (some (s, v)) vs
    else bestOf apply which key (some (score, best)) vs

/-- What the best is chosen from: the items of the only argument, or several
arguments. -/
def candidates (which : Extreme) (a : Arguments) : Action (List Value) :=
  match a.positional with
  | [] => Action.fail (.arity which.name 1 2 0)
  | [v] => Action.items v
  | vs =>
    if (a.keyword? "default").isSome then Action.fail (.defaultWithSeveral which.name)
    else return vs

def extreme (apply : Apply) (which : Extreme) (a : Arguments) : Action Value := do
  a.allow which.name ["key", "default"]
  let key := unlessNone (a.keyword? "key")
  let fallback := a.keyword? "default"
  let items ← candidates which a
  match ← bestOf apply which key none items, fallback with
  | some v, _ => return v
  | none, some v => return v
  | none, none => Action.fail (.emptySequence which.name)

/-- The encodings that text files may be opened with. -/
def isUtf8Name (v : Value) : Bool :=
  match v with
  | .str _ t =>
    let name := Encoding.lowerAscii t.chars
    name = "utf-8".toList || name = "utf8".toList
  | _ => false

/-- The mode that a file is opened in. -/
def modeOf (a : Arguments) : Except Cause (List Char) :=
  match a.get? 1 "mode" with
  | some (.str _ m) => .ok m.chars
  | some v => .error (.argumentKind "open" "'mode'" (some v.kind))
  | none => .ok ['r']

/-- Only UTF-8 is implemented. -/
def requireUtf8 (a : Arguments) : Action Unit :=
  match unlessNone (a.get? 2 "encoding") with
  | some e =>
    if isUtf8Name e then return () else throw (.gap ⟨"open with a non-UTF-8 encoding", "file"⟩)
  | none => return ()

def openPath (a : Arguments) : Action Value := do
  a.allow "open" ["file", "mode", "encoding"]
  a.arity "open" 0 3
  match a.get? 0 "file" with
  | none => Action.fail (.missingArgument "open" "'file' (pos 1)")
  | some (.str _ path) =>
    let mode ← modeOf a
    requireUtf8 a
    FileMethod.openFile path.chars mode
  | some v => Action.fail (.pathKind v.kind)

/-- Calls a built-in function; `apply` calls key functions. -/
def call (apply : Apply) (f : Builtin) (a : Arguments) : Action Value := do
  match f with
  | .abs => Action.unary .abs (← sole "abs" a)
  | .all => all a
  | .any => any a
  | .chr => chr a
  | .getattr => getattr a
  | .hash => Action.newInt (← Action.hash (← sole "hash" a))
  | .hex => hex a
  | .isinstance =>
    let (v, info) ← pair "isinstance" a
    return .bool (← ClassInfo.isInstance v info)
  | .issubclass =>
    let (v, info) ← pair "issubclass" a
    return .bool (← ClassInfo.isSubclass v info)
  | .iter => Action.iter (← sole "iter" a)
  | .len => len a
  | .max => extreme apply .greatest a
  | .min => extreme apply .least a
  | .next => next a
  | .open => openPath a
  | .ord => ord a
  | .print => print a
  | .repr => Action.newChars (← Action.repr (← sole "repr" a))
  | .sorted => sorted apply a
  | .sum => sum a

end ObjectModel.Function
