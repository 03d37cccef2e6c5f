import ObjectModel.Call.Arguments
import ObjectModel.Encoding

/-!
# Methods of byte sequences
-/

namespace ObjectModel.BytesMethod

open Arguments (textOf)

def supports : Method → Bool
  | .decode | .hex => true
  | _ => false

def supportsMutable : Method → Bool
  | .append | .extend | .clear => true
  | m => supports m

def encodingOf (a : Arguments) : Except Cause (List Char) :=
  match a.get? 0 "encoding" with
  | some v => textOf "decode" 0 v
  | none => .ok "utf-8".toList

/-- Only strict decoding is implemented. -/
def requireStrict (k : Kind) (a : Arguments) : Action Unit := do
  match a.get? 1 "errors" with
  | some v =>
    if (← textOf "decode" 1 v) ≠ "strict".toList then
      Action.unimplemented "decode with a non-strict error handler" k
  | none => return ()

def decode (data : List UInt8) (k : Kind) (a : Arguments) : Action Value := do
  a.allow "decode" ["encoding", "errors"]
  a.arity "decode" 0 2
  let encoding ← encodingOf a
  requireStrict k a
  Action.newChars (← Encoding.decode encoding data)

def hex (data : List UInt8) (a : Arguments) : Action Value := do
  a.plain "hex" 0 0
  Action.newChars (Literal.hexDigits data)

def call (data : List UInt8) (m : Method) (a : Arguments) : Action Value := do
  match m with
  | .decode => decode data .bytes a
  | .hex => hex data a
  | _ => Action.unimplemented m.name .bytes

/-- The bytes of a byte sequence, or of an iterable of bytes. -/
def bytesOf (v : Value) : Action (List UInt8) := do
  match (← Action.heap).bytesOf? v with
  | some data => return data
  | none =>
    let reversed ← Action.fold (fun (acc : List UInt8) x => do
      return .yield ((← Action.byteOf .bytesOutOfRange x) :: acc)) v []
    return reversed.reverse

def callMutable (r : Ref .bytearray) (m : Method) (a : Arguments) : Action Value := do
  match m, a.positional with
  | .decode, _ => decode (← Action.readBytearray r) .bytearray a
  | .hex, _ => hex (← Action.readBytearray r) a
  | .append, [v] =>
    a.plain "append" 1 1
    let b ← Action.byteOf .byteOutOfRange v
    Action.appendBytearray r [b]
    return .none
  | .extend, [v] =>
    a.plain "extend" 1 1
    let extra ← bytesOf v
    Action.appendBytearray r extra
    return .none
  | .clear, [] =>
    a.plain "clear" 0 0
    Action.writeBytearray r []
    return .none
  | .append, _ | .extend, _ =>
    a.plain m.name 1 1
    return .none
  | .clear, _ =>
    a.plain m.name 0 0
    return .none
  | _, _ => Action.unimplemented m.name .bytearray

end ObjectModel.BytesMethod
