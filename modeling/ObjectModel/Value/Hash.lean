import ObjectModel.Fault
import ObjectModel.Hash

/-!
# Hash codes of values

A hash code is read off the value alone, never off the heap: a value that
reaches mutable content through its code has none.
-/

namespace ObjectModel.Value

mutual
def hashWith (scheme : Hash.Scheme) : Value → Except Cause Int64
  | .none => .ok 0
  | .bool b => .ok (Hash.ofInt (if b then 1 else 0))
  | .int _ n => .ok (Hash.ofInt n)
  | .str _ t => .ok (scheme.text t.bytes)
  | .bytes _ data => .ok (scheme.bytes data)
  | .tuple _ items => (hashAllWith scheme items).map Hash.combine
  | .range _ r => .ok (Hash.combine r.hashParts)
  | .slice _ start stop step => do
    return Hash.combine
      [← start.hashWith scheme, ← stop.hashWith scheme, ← step.hashWith scheme]
  | .list _ => .error (.unhashable .list)
  | .dict _ => .error (.unhashable .dict)
  | .set _ => .error (.unhashable .set)
  | .bytearray _ => .error (.unhashable .bytearray)
  | .view _ .keys _ => .error (.unhashable (.view .keys))
  | .view _ .items _ => .error (.unhashable (.view .items))
  | .builtin f => .ok (scheme.text (Utf8.encode f.name.toList))
  | v => .ok (scheme.object v.identity.code)

def hashAllWith (scheme : Hash.Scheme) : List Value → Except Cause (List Int64)
  | [] => .ok []
  | v :: vs => do return (← v.hashWith scheme) :: (← hashAllWith scheme vs)
end

def hash : Value → Except Cause Int64 := hashWith .standard

end ObjectModel.Value
