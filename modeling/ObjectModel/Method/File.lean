import ObjectModel.Call.Arguments

/-!
# Methods of file handles
-/

namespace ObjectModel.FileMethod

def supports : Method → Bool
  | .readLine | .read | .close => true
  | _ => false

/-- Closing a second time changes nothing. -/
def close (r : Ref .file) : Action Unit := do
  Action.writeFile r (← Action.readFile r).close

/-- A number of bytes to read; a negative number reads all. -/
def sizeOf (n : Option Int64) : Option Nat := n.bind fun n => if n < 0 then none else some n.toInt.toNat

def call (r : Ref .file) (mode : FileMode) (m : Method) (a : Arguments) : Action Value := do
  match m with
  | .readLine =>
    a.plain "readline" 0 0
    Action.readWith r File.readLine
  | .read =>
    a.plain "read" 0 1
    let size := sizeOf (← a.int? 0)
    Action.readWith r (File.read · size)
  | .close =>
    a.plain "close" 0 0
    close r
    return .none
  | _ => Action.unimplemented m.name (.file mode)

def openFile (path mode : List Char) : Action Value := do
  match File.parseMode? mode with
  | none => throw (.gap ⟨s!"open mode '{String.ofList mode}'", "file"⟩)
  | some parsed =>
    let s ← get
    match s.files.find? (·.path == path) with
    | none => Action.fail (.noSuchFile path)
    | some source =>
      match source.openFailure with
      | some message => Action.fail (.device message)
      | none =>
        Action.newFile
          ⟨path, parsed, s.foldsNewlines, source.content, source.readFailure, true⟩

end ObjectModel.FileMethod
