import ObjectModel.Keyed

/-!
# Tables and key sets

The contents of dicts and of sets. Both are in insertion order; that of a set
carries no meaning.
-/

namespace ObjectModel

abbrev Table := Keyed Value

namespace Table

/-- The value of a text key. -/
def findText? (t : Table) (name : String) : Option Value :=
  t.entries.findSome? fun e =>
    match e.1.value with
    | .str _ s => if s.chars = name.toList then some e.2 else none
    | _ => none

end Table

abbrev KeySet := Keyed Unit

namespace KeySet

/-- Adding a key that is present changes nothing. -/
def add (s : KeySet) (key : Key) : KeySet := s.insert key ()

def addAll (s : KeySet) (keys : List Key) : KeySet := keys.foldl add s

def ofKeys (keys : List Key) : KeySet := addAll ∅ keys

/-- The keys that satisfy a test. -/
def filter (s : KeySet) (p : Key → Bool) : KeySet := Keyed.ofEntries (s.entries.filter (p ·.1))

/-- Removes the keys that fail a test, the last ones first. -/
def retain (s : KeySet) (p : Key → Bool) : KeySet :=
  s.keys.foldr (fun key kept => if p key then kept else kept.erase key) s

def union (s t : KeySet) : KeySet := addAll s t.keys

def inter (s t : KeySet) : KeySet := filter s t.contains

def diff (s t : KeySet) : KeySet := filter s (!t.contains ·)

def symmDiff (s t : KeySet) : KeySet := union (diff s t) (diff t s)

def isSubset (s t : KeySet) : Bool := s.size ≤ t.size && s.keys.all t.contains

/-- Same number of keys, each of the one in the other. -/
def same (s t : KeySet) : Bool := s.size == t.size && isSubset s t

end KeySet

end ObjectModel
