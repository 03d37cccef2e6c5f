import ObjectModel.Value.Basic

/-!
# Equality of values

Numbers are compared by value. Other values are equal when they are identical;
otherwise sequences are compared item by item, and the rest by identity. Pairs
whose comparison needs the heap are handed to a parameter, so that the same
definition serves keys, which never need it.
-/

namespace ObjectModel.Value

/-- Compares values that are neither tuples nor slices and not identical. -/
def leafEquals (stored : Value → Value → Bool) : Value → Value → Bool
  | .str _ s, .str _ t => s.chars == t.chars
  | .bytes _ x, .bytes _ y => x == y
  | .range _ r, .range _ s => r.same s
  | .method _ r m, .method _ r' m' => m == m' && r.is r'
  | a@(.bytes ..), b@(.bytearray _) => stored a b
  | a@(.bytearray _), b@(.bytes ..) => stored a b
  | a@(.bytearray _), b@(.bytearray _) => stored a b
  | a@(.list _), b@(.list _) => stored a b
  | a@(.dict _), b@(.dict _) => stored a b
  | a@(.set _), b@(.set _) => stored a b
  | a@(.view ..), b@(.view ..) => stored a b
  | a, b =>
    match a.asInt?, b.asInt? with
    | some m, some n => m == n
    | _, _ => false

mutual
def equalsWith (stored : Value → Value → Bool) : Value → Value → Bool
  | .int _ m, .int _ n => m == n
  | .tuple tag xs, b =>
    (Value.tuple tag xs).is b ||
      (match b with
        | .tuple _ ys => allEqualWith stored xs ys
        | _ => false)
  | .slice tag x y z, b =>
    (Value.slice tag x y z).is b ||
      (match b with
        | .slice _ x' y' z' =>
          x.equalsWith stored x' && y.equalsWith stored y' && z.equalsWith stored z'
        | _ => false)
  | a, b => a.is b || leafEquals stored a b

def allEqualWith (stored : Value → Value → Bool) : List Value → List Value → Bool
  | [], [] => true
  | x :: xs, y :: ys => x.equalsWith stored y && allEqualWith stored xs ys
  | _, _ => false
end

/-- Equality of values that have hash codes; it reads nothing but the values. -/
def sameKey : Value → Value → Bool := equalsWith fun _ _ => false

end ObjectModel.Value
