import ObjectModel.Capability

/-!
# Arguments

Positional arguments and keyword arguments of a call, and the checks that
callables make on them.
-/

namespace ObjectModel

structure Arguments where
  positional : List Value
  keywords : Table

namespace Arguments

def single (v : Value) : Arguments := ⟨[v], ∅⟩

def noKeywords (a : Arguments) (name : String) : Except Cause Unit :=
  if a.keywords.isEmpty then .ok () else .error (.noKeywords name)

def arity (a : Arguments) (name : String) (least most : Nat) : Except Cause Unit :=
  let given := a.positional.length
  if least ≤ given ∧ given ≤ most then .ok () else .error (.arity name least most given)

/-- No keywords, and a number of positional arguments within bounds. -/
def plain (a : Arguments) (name : String) (least most : Nat) : Except Cause Unit := do
  a.noKeywords name
  a.arity name least most

def keywordNames (keywords : Table) : Except Cause (List (List Char)) :=
  keywords.keys.mapM fun k =>
    match k.value with
    | .str _ t => .ok t.chars
    | _ => .error .keywordKind

def allow (a : Arguments) (name : String) (allowed : List String) : Except Cause Unit := do
  let names ← keywordNames a.keywords
  match names.find? (fun n => !(allowed.map String.toList).contains n) with
  | some n => throw (.unknownKeyword name n)
  | none => return ()

def keyword? (a : Arguments) (key : String) : Option Value := a.keywords.findText? key

def at? (a : Arguments) (position : Nat) : Option Value := a.positional[position]?

/-- A positional argument, or the keyword that stands for it. -/
def get? (a : Arguments) (position : Nat) (key : String) : Option Value :=
  a.at? position <|> a.keyword? key

/-- An argument that `None` leaves out. -/
def unlessNone (v : Option Value) : Option Value := v.filter (!·.isNone)

def intOf (v : Value) : Except Cause Int64 :=
  match v.asInt? with
  | some n => .ok n
  | none => .error (.notAnInteger v.kind)

/-- An optional integer argument; `None` leaves it out. -/
def int? (a : Arguments) (position : Nat) : Except Cause (Option Int64) :=
  match unlessNone (a.at? position) with
  | some v => (intOf v).map some
  | none => .ok none

/-- A text argument, named in the error by its position. -/
def textOf (name : String) (position : Nat) (v : Value) : Except Cause (List Char) :=
  match v with
  | .str _ t => .ok t.chars
  | _ => .error (.argumentKind name s!"{position + 1}" (some v.kind))

end Arguments

end ObjectModel
