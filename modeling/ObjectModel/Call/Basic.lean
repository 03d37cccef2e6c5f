import ObjectModel.Call.Builtin
import ObjectModel.Call.Construct

/-!
# Calls

Kinds, built-in functions and bound methods can be called. The only functions
that call a value are those that take a key function. They call it with one
argument and no keywords, so such a call passes no key function on.
-/

namespace ObjectModel

namespace Method

def call (apply : Function.Apply) (receiver : Value) (m : Method) (a : Arguments) :
    Action Value :=
  match receiver with
  | .str _ t => TextMethod.call t m a
  | .list r => SequenceMethod.callList apply r m a
  | .dict r => DictMethod.call r m a
  | .set r => SetMethod.call r m a
  | .tuple _ xs => SequenceMethod.callTuple xs m a
  | .bytes _ data => BytesMethod.call data m a
  | .bytearray r => BytesMethod.callMutable r m a
  | .file mode r => FileMethod.call r mode m a
  | v => Action.unimplemented m.name v.kind

end Method

namespace Action

/-- Calls a value, with `apply` for the key functions that it is given. -/
def callWith (apply : Function.Apply) (f : Value) (a : Arguments) : Action Value :=
  match f with
  | .type k => Construct.instanceOf k a
  | .builtin b => Function.call apply b a
  | .method _ receiver m => m.call apply receiver a
  | v => unimplemented "call" v.kind

def applyKey (f v : Value) : Action Value :=
  callWith (fun _ _ => throw .unbounded) f (.single v)

def call (f : Value) (a : Arguments) : Action Value := callWith applyKey f a

def callMethod (receiver : Value) (name : List Char) (a : Arguments) : Action Value := do
  call (← getAttr receiver name) a

end Action

/-- What a name denotes in the built-in scope. -/
def builtinScope (name : String) : Option Value :=
  match Kind.ofName? name with
  | some k => some (.type k)
  | none => (Builtin.ofName? name).map .builtin

/-- The names of the built-in scope in their standard order. -/
def builtinNames : List String := Builtin.catalogue.map Builtin.name ++ Kind.named.map Kind.name

/-- The names of the built-in scope in alphabetical order. -/
def sortedBuiltinNames : List String := builtinNames.mergeSort fun a b => !(b < a)

/-- Calls what a name denotes in the built-in scope; an unknown name is a gap. -/
def Action.callBuiltin (name : String) (a : Arguments) : Action Value :=
  match builtinScope name with
  | some f => call f a
  | none => throw (.gap ⟨name, "builtins"⟩)

end ObjectModel
