import ObjectModel.Fault

/-!
# Class tests

A class test names a kind, or a tuple of class tests nested to any depth. Its
leaves are tried from left to right, and a leaf that is no kind is an error
only when it is reached.
-/

namespace ObjectModel.ClassInfo

mutual
/-- The kind is or inherits from one that the test names; `name` is the
function that asks. -/
def admits (name : String) (k : Kind) : Value → Except Cause Bool
  | .type t => .ok (k.isA t)
  | .tuple _ options => admitsAny name k options
  | _ => .error (.classInfo name)

def admitsAny (name : String) (k : Kind) : List Value → Except Cause Bool
  | [] => .ok false
  | v :: vs =>
    match admits name k v with
    | .ok false => admitsAny name k vs
    | r => r
end

def isInstance (v info : Value) : Except Cause Bool := admits "isinstance" v.kind info

def isSubclass (v info : Value) : Except Cause Bool :=
  match v with
  | .type k => admits "issubclass" k info
  | _ => .error .notAClass

end ObjectModel.ClassInfo
