import ObjectModel.Capability
import ObjectModel.Percent

/-!
# Operators

The unary and binary operators, and the binary ones in place. Each kind
implements some of them; the others are coverage gaps.
-/

namespace ObjectModel

inductive UnaryOp where
  | invert
  | pos
  | neg
  | abs
  deriving DecidableEq, Repr

def UnaryOp.name : UnaryOp → String
  | .invert => "invert"
  | .pos => "pos"
  | .neg => "neg"
  | .abs => "abs"

inductive BinaryOp where
  | add
  | and
  | floordiv
  | lshift
  | matmul
  | mod
  | mul
  | or
  | pow
  | rshift
  | sub
  | truediv
  | xor
  deriving DecidableEq, Repr

namespace BinaryOp

def name : BinaryOp → String
  | .add => "add"
  | .and => "and"
  | .floordiv => "floordiv"
  | .lshift => "lshift"
  | .matmul => "matmul"
  | .mod => "mod"
  | .mul => "mul"
  | .or => "or"
  | .pow => "pow"
  | .rshift => "rshift"
  | .sub => "sub"
  | .truediv => "truediv"
  | .xor => "xor"

def symbol : BinaryOp → String
  | .add => "+"
  | .and => "&"
  | .floordiv => "//"
  | .lshift => "<<"
  | .matmul => "@"
  | .mod => "%"
  | .mul => "*"
  | .or => "|"
  | .pow => "** or pow()"
  | .rshift => ">>"
  | .sub => "-"
  | .truediv => "/"
  | .xor => "^"

/-- The operation on integers, for the operators that have one. -/
def onInts? : BinaryOp → Option (Int64 → Int64 → Except Checked.Error Int64)
  | .add => some Checked.add
  | .and => some fun a b => .ok (a &&& b)
  | .floordiv => some Checked.floorDiv
  | .lshift => some Checked.shiftLeft
  | .mod => some Checked.floorMod
  | .mul => some Checked.mul
  | .or => some fun a b => .ok (a ||| b)
  | .pow => some Checked.pow
  | .rshift => some Checked.shiftRight
  | .sub => some Checked.sub
  | .xor => some fun a b => .ok (a ^^^ b)
  | .matmul | .truediv => none

def onBools? : BinaryOp → Option (Bool → Bool → Bool)
  | .and => some (· && ·)
  | .or => some (· || ·)
  | .xor => some (· != ·)
  | _ => none

def onSets? : BinaryOp → Option (KeySet → KeySet → KeySet)
  | .or => some KeySet.union
  | .and => some KeySet.inter
  | .sub => some KeySet.diff
  | .xor => some KeySet.symmDiff
  | _ => none

/-- What a set operator does in place to the keys of its left operand. -/
def inSets? : BinaryOp → Option (KeySet → KeySet → KeySet)
  | .or => some fun mine theirs => mine.addAll theirs.keys
  | .and => some fun mine theirs => mine.retain theirs.contains
  | .sub => some fun mine theirs => mine.retain (!theirs.contains ·)
  | .xor => some KeySet.symmDiff
  | _ => none

end BinaryOp

/-- How often a sequence of `units` units is repeated by an operand. Negative
counts yield an empty sequence. -/
def repeatCount (units : Nat) (operand : Value) : Except Cause Nat :=
  match operand.asInt? with
  | none => .error (.repetition operand.kind)
  | some n =>
    let times := n.toInt.toNat
    if units * times < 0x8000000000000000 then .ok times else .error .repetitionTooLong

/-- `n` copies of a sequence in a row. -/
def repeatItems {α : Type} (n : Nat) (xs : List α) : List α :=
  if xs.isEmpty then [] else (List.replicate n xs).flatten

namespace Action

def ofArithmetic (r : Except Checked.Error Int64) : Action Value :=
  match r with
  | .ok n => newInt n
  | .error e => throw (Fault.ofArithmetic e)

def unary (op : UnaryOp) (v : Value) : Action Value := do
  match v.asInt? with
  | none => unimplemented op.name v.kind
  | some n =>
    match op with
    | .invert => newInt (~~~n)
    | .pos => newInt n
    | .neg => ofArithmetic (Checked.neg n)
    | .abs => ofArithmetic (Checked.abs n)

def repeated (v count : Value) : Action Value := do
  match v with
  | .str _ t => newText (t.replicate (← repeatCount t.byteLength count))
  | .bytes _ data => newBytes (repeatItems (← repeatCount data.length count) data)
  | .bytearray r =>
    let data ← readBytearray r
    newBytearray (repeatItems (← repeatCount data.length count) data)
  | .tuple _ items => newTuple (repeatItems (← repeatCount items.length count) items)
  | .list r =>
    let items ← readList r
    newList (repeatItems (← repeatCount items.length count) items)
  | _ => unimplemented "mul" v.kind

/-- The bytes of the right operand of a concatenation. -/
def byteOperand (onto : Kind) (v : Value) : Action (List UInt8) := do
  match (← heap).bytesOf? v with
  | some data => return data
  | none => fail (.byteConcatenation onto v.kind)

def concatenated (a b : Value) : Action Value := do
  match a, b with
  | .str _ s, .str _ t => newText (s.concat t)
  | .tuple _ xs, .tuple _ ys => newTuple (xs ++ ys)
  | .list r, .list s => newList ((← readList r) ++ (← readList s))
  | .bytes _ data, _ => newBytes (data ++ (← byteOperand .bytes b))
  | .bytearray r, _ =>
    let data ← readBytearray r
    newBytearray (data ++ (← byteOperand .bytearray b))
  | _, _ => fail (.concatenation a.kind b.kind)

/-- An operator with an integer or a truth value on the left. -/
def binaryNumber (op : BinaryOp) (a : Value) (m : Int64) (b : Value) : Action Value := do
  match op.onInts? with
  | none => unimplemented op.name a.kind
  | some f =>
    match a, b, op.onBools? with
    | .bool x, .bool y, some g => return .bool (g x y)
    | _, _, _ =>
      match b.asInt? with
      | some n => ofArithmetic (f m n)
      | none =>
        if op = .mul && b.isRepeatable then repeated b (← newInt m)
        else fail (.operands op.symbol a.kind b.kind)

/-- An operator with a sequence on the left. -/
def binarySequence (op : BinaryOp) (a b : Value) : Action Value :=
  match op with
  | .add => concatenated a b
  | .mul => repeated a b
  | _ => unimplemented op.name a.kind

/-- The keys of the right operand of a set operator. -/
def setOperand (symbol : String) (b : Value) : Action KeySet := do
  match b with
  | .set s => readSet s
  | _ => fail (.operands symbol .set b.kind)

def binary (op : BinaryOp) (a b : Value) : Action Value := do
  match a with
  | .int _ m => binaryNumber op a m b
  | .bool x => binaryNumber op a (if x then 1 else 0) b
  | .str _ s =>
    match op with
    | .add => concatenated a b
    | .mul => repeated a b
    | .mod =>
      match Percent.format (← heap) s.chars b with
      | .ok text => newChars text
      | .error f => throw f
    | _ => unimplemented op.name a.kind
  | .tuple .. | .list _ | .bytes .. | .bytearray _ => binarySequence op a b
  | .set r =>
    match op.onSets? with
    | some f =>
      let theirs ← setOperand op.symbol b
      newSet (f (← readSet r) theirs)
    | none => unimplemented op.name a.kind
  | .dict r =>
    match op with
    | .or =>
      match b with
      | .dict s => newDict ((← readDict r).merge (← readDict s))
      | _ => fail (.operands "|" .dict b.kind)
    | _ => unimplemented op.name a.kind
  | _ => unimplemented op.name a.kind

/-- Appends the items of a value to a list, which may be the value itself. -/
def extendList (r : Ref .list) (v : Value) : Action Unit := do
  let extra ← match v with
    | .list s => readList s
    | _ => items v
  appendList r extra

/-- How the in-place form of a set operator is named in errors. -/
def inPlaceSymbol (op : BinaryOp) : String := if op = .xor then "^" else op.symbol ++ "="

/-- The in-place form of an operator: containers that have one change and are
the result, all others compute a new value. -/
def inPlace (op : BinaryOp) (a b : Value) : Action Value := do
  match a, op with
  | .list r, .add =>
    extendList r b
    return a
  | .list r, .mul =>
    let items ← readList r
    writeList r (repeatItems (← repeatCount items.length b) items)
    return a
  | .bytearray r, .add =>
    let extra ← byteOperand .bytearray b
    appendBytearray r extra
    return a
  | .set r, _ =>
    match op.inSets? with
    | some f =>
      let theirs ← setOperand (inPlaceSymbol op) b
      writeSet r (f (← readSet r) theirs)
      return a
    | none => binary op a b
  | _, _ => binary op a b

end Action

end ObjectModel
