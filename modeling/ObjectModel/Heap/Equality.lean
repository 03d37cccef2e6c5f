import ObjectModel.Heap.Basic

/-!
# Equality through the heap

Containers are compared by their contents. The recursion passes through each
container of an acyclic graph at most once, which bounds its depth.
-/

namespace ObjectModel.Heap

/-- Entries are compared key by key, in any order. -/
def sameEntries (equal : Value → Value → Bool) (s t : Table) : Bool :=
  s.size == t.size && s.entries.all fun e =>
    match t.find? e.1 with
    | some v => equal e.2 v
    | none => false

def listsEqual (equal : Value → Value → Bool) : List Value → List Value → Bool
  | [], [] => true
  | x :: xs, y :: ys => equal x y && listsEqual equal xs ys
  | _, _ => false

/-- Views of keys and of items are equal as sets; views of values only when
they are the same object. -/
def viewsEqual (equal : Value → Value → Bool) (s t : Table) : Part → Part → Bool
  | .keys, .keys => s.size == t.size && s.keys.all t.contains
  | .items, .items => s.size == t.size && s.entries.all fun e =>
    match t.find? e.1 with
    | some v => equal v e.2
    | none => false
  | _, _ => false

/-- Compares two values by their contents. -/
def contentsEqual (h : Heap) (equal : Value → Value → Bool) : Value → Value → Bool
  | .list r, .list s => listsEqual equal (h.list r) (h.list s)
  | .dict r, .dict s => sameEntries equal (h.dict r) (h.dict s)
  | .set r, .set s => (h.set r).same (h.set s)
  | .view _ p r, .view _ q s => viewsEqual equal (h.dict r) (h.dict s) p q
  | a, b =>
    match h.bytesOf? a, h.bytesOf? b with
    | some x, some y => x == y
    | _, _ => false

def equalsAt (h : Heap) : Nat → Value → Value → Bool
  | 0 => Value.equalsWith fun _ _ => false
  | n + 1 => Value.equalsWith (h.contentsEqual (h.equalsAt n))

def equals (h : Heap) : Value → Value → Bool := h.equalsAt h.depth

end ObjectModel.Heap
