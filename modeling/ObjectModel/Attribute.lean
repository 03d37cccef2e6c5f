import ObjectModel.Method.Bytes
import ObjectModel.Method.Dict
import ObjectModel.Method.File
import ObjectModel.Method.Sequence
import ObjectModel.Method.Set
import ObjectModel.Method.Text

/-!
# Attributes

What a name denotes on a value: one of its parts, one of its methods bound to
it, or its kind.
-/

namespace ObjectModel

def Value.supports : Value → Method → Bool
  | .str .. => TextMethod.supports
  | .bytes .. => BytesMethod.supports
  | .bytearray _ => BytesMethod.supportsMutable
  | .tuple .. => SequenceMethod.supportsTuple
  | .list _ => SequenceMethod.supportsList
  | .dict _ => DictMethod.supports
  | .set _ => SetMethod.supports
  | .file .. => FileMethod.supports
  | _ => fun _ => false

namespace Action

/-- A part of a value that a name denotes. -/
def part? (v : Value) (name : String) : Action (Option Value) := do
  match v, name with
  | .range _ r, "start" => return some (← newInt r.start)
  | .range _ r, "stop" => return some (← newInt r.stop)
  | .range _ r, "step" => return some (← newInt r.step)
  | .slice _ start _ _, "start" => return some start
  | .slice _ _ stop _, "stop" => return some stop
  | .slice _ _ _ step, "step" => return some step
  | .error _ _ args, "args" => return some (← newTuple args)
  | .type k, "__name__" => return some (← newText (.ofString k.name))
  | .type k, "__base__" => return some (k.base?.elim .none .type)
  | .builtin f, "__name__" => return some (← newText (.ofString f.name))
  | .file _ r, "name" => return some (← newChars (← readFile r).path)
  | .file mode _, "mode" => return some (← newText (.ofString (File.modeText mode)))
  | .file _ r, "closed" => return some (.bool (!(← readFile r).isOpen))
  | _, _ => return none

def getAttr (v : Value) (name : List Char) : Action Value := do
  match ← part? v (String.ofList name) with
  | some x => return x
  | none =>
    match (Method.ofName? (String.ofList name)).filter v.supports with
    | some m => newMethod v m
    | none =>
      if name = "__class__".toList then return .type v.kind
      else fail (.noAttribute v.kind name)

/-- No kind lets its attributes be assigned. -/
def setAttr (v : Value) (_name : List Char) (_value : Value) : Action Unit :=
  unimplemented "set_attr" v.kind

def delAttr (v : Value) (_name : List Char) : Action Unit := unimplemented "del_attr" v.kind

/-- Entering a context: an open file yields itself. -/
def enter (v : Value) : Action Value := do
  match v with
  | .file _ r => if (← readFile r).isOpen then return v else fail .closedFile
  | _ => unimplemented "enter" v.kind

/-- Leaving a context closes the file. -/
def exit (v : Value) : Action Unit := do
  match v with
  | .file _ r => FileMethod.close r
  | _ => unimplemented "exit" v.kind

end Action

end ObjectModel
