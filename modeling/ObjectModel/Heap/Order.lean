import ObjectModel.Heap.Equality

/-!
# Ordering comparisons

Numbers, texts, byte sequences, lists, tuples and sets are ordered among their
own. Of two sequences the first unequal pair of items decides, else the
lengths; sets are ordered by inclusion.
-/

namespace ObjectModel

inductive Comparison where
  | lt
  | le
  | gt
  | ge
  deriving DecidableEq, Repr

namespace Comparison

def name : Comparison → String
  | .lt => "lt"
  | .le => "le"
  | .gt => "gt"
  | .ge => "ge"

def symbol : Comparison → String
  | .lt => "<"
  | .le => "<="
  | .gt => ">"
  | .ge => ">="

def holds : Comparison → Ordering → Bool
  | .lt, o => o.isLT
  | .le, o => o.isLE
  | .gt, o => o.isGT
  | .ge, o => o.isGE

/-- Sets are ordered by inclusion. -/
def ofSets (op : Comparison) (s t : KeySet) : Bool :=
  match op with
  | .lt => s.size < t.size && s.isSubset t
  | .le => s.isSubset t
  | .gt => t.size < s.size && t.isSubset s
  | .ge => t.isSubset s

end Comparison

namespace Value

mutual
/-- Compares tuples item by item and leaves the rest to `leaf`. -/
def compareWith (equal : Value → Value → Bool) (leaf : Value → Value → Except Fault Bool)
    (op : Comparison) : Value → Value → Except Fault Bool
  | .tuple tag xs, b =>
    match b with
    | .tuple _ ys => compareAllWith equal leaf op xs ys
    | _ => leaf (.tuple tag xs) b
  | a, b => leaf a b

def compareAllWith (equal : Value → Value → Bool) (leaf : Value → Value → Except Fault Bool)
    (op : Comparison) : List Value → List Value → Except Fault Bool
  | x :: xs, y :: ys =>
    if equal x y then compareAllWith equal leaf op xs ys else x.compareWith equal leaf op y
  | xs, ys => .ok (op.holds (compare xs.length ys.length))
end

end Value

namespace Heap

/-- Compares two values that are not both lists or both tuples. -/
def compareLeaf (h : Heap) (op : Comparison) (a b : Value) : Except Fault Bool :=
  let refused : Except Fault Bool := .error (.cause (.comparison op.symbol a.kind b.kind))
  match a with
  | .int .. | .bool _ =>
    match a.asInt?, b.asInt? with
    | some m, some n => .ok (op.holds (compare m.toInt n.toInt))
    | _, _ => refused
  | .str _ s =>
    match b with
    | .str _ t => .ok (op.holds (s.order t))
    | _ => refused
  | .bytes .. | .bytearray _ =>
    match h.bytesOf? a, h.bytesOf? b with
    | some x, some y => .ok (op.holds (Text.compareBytes x y))
    | _, _ => refused
  | .set r =>
    match b with
    | .set s => .ok (op.ofSets (h.set r) (h.set s))
    | _ => refused
  | .list _ | .tuple .. => refused
  | _ => .error (.unimplemented op.name a.kind)

/-- Compares two values that are not both tuples. -/
def compareStored (h : Heap) (op : Comparison) : Nat → Value → Value → Except Fault Bool
  | 0, _, _ => .error .unbounded
  | n + 1, .list r, .list s =>
    Value.compareAllWith h.equals (h.compareStored op n) op (h.list r) (h.list s)
  | _ + 1, a, b => h.compareLeaf op a b

def compare (h : Heap) (op : Comparison) : Value → Value → Except Fault Bool :=
  Value.compareWith h.equals (h.compareStored op h.depth) op

end Heap

end ObjectModel
