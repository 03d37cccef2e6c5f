import ObjectModel.Call.Arguments
import ObjectModel.Text.Case

/-!
# Methods of texts
-/

namespace ObjectModel.TextMethod

open Arguments (textOf intOf unlessNone)

def supports : Method → Bool
  | .join | .lower | .upper | .split | .strip | .startsWith | .endsWith | .replace | .find
  | .count => true
  | _ => false

/-- The texts of an iterable, with a separator between them. -/
def join (separator : Text) (source : Value) : Action Value := do
  let (_, parts) ← Action.fold (fun (acc : Nat × List (List Char)) v => do
      match v with
      | .str _ t => return .yield (acc.1 + 1, t.chars :: acc.2)
      | _ => Action.fail (.joinItemKind acc.1 v.kind)) source (0, [])
  Action.newChars (separator.chars.intercalate parts.reverse)

/-- A number of cuts; a negative number does not limit them. -/
def limitOf (n : Int64) : Option Nat := if n < 0 then none else some n.toInt.toNat

def newTexts (parts : List (List Char)) : Action Value := do
  Action.newList (← parts.mapM Action.newChars)

/-- The number of cuts that the arguments allow. -/
def limitFrom (a : Arguments) : Except Cause (Option Nat) :=
  match a.get? 1 "maxsplit" with
  | some v => limitOf <$> intOf v
  | none => .ok none

def split (t : Text) (a : Arguments) : Action Value := do
  a.allow "split" ["sep", "maxsplit"]
  a.arity "split" 0 2
  let separator := unlessNone (a.get? 0 "sep")
  let limit ← limitFrom a
  match separator with
  | none => newTexts (Text.splitBlank limit t.chars)
  | some (.str _ s) =>
    match s.chars with
    | [] => Action.fail .emptySeparator
    | [c] => newTexts (Text.splitOn c limit t.chars)
    | _ => Action.unimplemented "split with a multi-character separator" .str
  | some v => Action.fail (.separatorKind v.kind)

def strip (t : Text) (a : Arguments) : Action Value := do
  a.plain "strip" 0 1
  match unlessNone (a.at? 0) with
  | none => Action.newChars (Text.trim Text.isBlank t.chars)
  | some (.str _ s) => Action.newChars (Text.trim s.chars.contains t.chars)
  | some _ => Action.fail .stripKind

/-- The text starts or ends with another. -/
def hasAffix (m : Method) (t pattern : List Char) : Bool :=
  if m = .startsWith then pattern.isPrefixOf t else pattern.isSuffixOf t

/-- Some text of a tuple is an affix; items after it are not examined. -/
def anyAffix (m : Method) (t : List Char) : List Value → Except Cause Bool
  | [] => .ok false
  | .str _ p :: rest => if hasAffix m t p.chars then .ok true else anyAffix m t rest
  | v :: _ => .error (.affixItemKind m v.kind)

def affix (m : Method) (t : Text) (a : Arguments) : Action Value := do
  a.plain m.name 1 3
  match a.positional with
  | [.str _ p] => return .bool (hasAffix m t.chars p.chars)
  | [.tuple _ options] => return .bool (← anyAffix m t.chars options)
  | [v] => Action.fail (.affixKind m v.kind)
  | _ => Action.unimplemented "startswith/endswith with bounds" .str

def replace (t : Text) (a : Arguments) : Action Value := do
  a.plain "replace" 2 3
  match a.positional with
  | old :: new :: _ =>
    let old ← textOf "replace" 0 old
    let new ← textOf "replace" 1 new
    let limit := (← a.int? 2).bind limitOf
    Action.newChars (Text.replace old new limit t.chars)
  | _ => Action.fail (.arity "replace" 2 3 a.positional.length)

/-- The text to look for. -/
def needle (v : Value) : Except Cause (List Char) :=
  match v with
  | .str _ t => .ok t.chars
  | _ => .error (.needleKind v.kind)

/-- The arguments of a search: the text, and optional bounds. -/
def searchArguments (m : Method) (a : Arguments) :
    Except Cause (List Char × Option Int64 × Option Int64) := do
  a.plain m.name 1 3
  match a.positional with
  | v :: _ => return (← needle v, ← a.int? 1, ← a.int? 2)
  | [] => throw (.arity m.name 1 3 0)

def find (t : Text) (a : Arguments) : Action Value := do
  let (sub, start, stop) ← searchArguments .find a
  match t.find? sub start stop with
  | some i => Action.newInt (Int64.ofNat i)
  | none => Action.newInt (-1)

def count (t : Text) (a : Arguments) : Action Value := do
  let (sub, start, stop) ← searchArguments .count a
  Action.newInt (Int64.ofNat (t.countWithin sub start stop))

def call (t : Text) (m : Method) (a : Arguments) : Action Value := do
  match m with
  | .join =>
    a.plain "join" 1 1
    match a.positional with
    | v :: _ => join t v
    | [] => Action.fail (.arity "join" 1 1 0)
  | .lower =>
    a.plain "lower" 0 0
    Action.newChars (Text.lower t.chars)
  | .upper =>
    a.plain "upper" 0 0
    Action.newChars (Text.upper t.chars)
  | .split => split t a
  | .strip => strip t a
  | .startsWith | .endsWith => affix m t a
  | .replace => replace t a
  | .find => find t a
  | .count => count t a
  | _ => Action.unimplemented m.name .str

end ObjectModel.TextMethod
