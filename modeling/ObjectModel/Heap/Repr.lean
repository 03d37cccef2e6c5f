import Std.Data.TreeSet
import ObjectModel.Heap.Basic
import ObjectModel.Numeral

/-!
# Spelling values

`repr` spells a value as a literal where it has one; `str` spells texts and
exceptions by their content. A container that is met again inside its own
spelling is cut short by a placeholder, so spelling ends on cyclic graphs too.
-/

namespace ObjectModel

/-- A text, as what it puts in front of the text that follows it. So nested
texts are written once, however deep they are. -/
abbrev Spelling := List Char → List Char

namespace Spelling

def text (cs : List Char) : Spelling := (cs ++ ·)

def ofString (s : String) : Spelling := text s.toList

/-- One text after the other. -/
instance : Append Spelling := ⟨(· ∘ ·)⟩

/-- Spellings separated by commas. -/
def commaJoin : List Spelling → Spelling
  | [] => id
  | first :: others => fun rest => first (others.foldr (fun s rest => ',' :: ' ' :: s rest) rest)

@[simp] theorem append_apply (s t : Spelling) (rest : List Char) : (s ++ t) rest = s (t rest) := rfl

@[simp] theorem text_apply (cs rest : List Char) : text cs rest = cs ++ rest := rfl

theorem commaJoin_cons_cons (first second : Spelling) (others : List Spelling) :
    commaJoin (first :: second :: others) =
      first ++ text [',', ' '] ++ commaJoin (second :: others) := rfl

/-- Joining texts is what it looks like. -/
theorem commaJoin_text (parts : List (List Char)) (rest : List Char) :
    commaJoin (parts.map text) rest = [',', ' '].intercalate parts ++ rest := by
  induction parts with
  | nil => rfl
  | cons p ps ih =>
    cases ps with
    | nil => simp [commaJoin, List.intercalate]
    | cons q qs =>
      simp only [List.map_cons] at ih ⊢
      rw [commaJoin_cons_cons, append_apply, append_apply, ih]
      simp [List.intercalate, List.intersperse]

end Spelling

/-- The containers that are being spelled, by their numbers, which tell
containers apart. -/
abbrev Opened := Std.TreeSet Nat

namespace Value

open Spelling (text ofString commaJoin)

mutual
/-- Spells the immutable containers; `stored` spells the rest. -/
def reprWith (stored : Opened → Value → Spelling) (opened : Opened) : Value → Spelling
  | .tuple _ [item] => ofString "(" ++ item.reprWith stored opened ++ ofString ",)"
  | .tuple tag items =>
    let me := (Value.tuple tag items).identity.code
    if opened.contains me then ofString "(...)"
    else ofString "(" ++ commaJoin (reprAllWith stored (opened.insert me) items) ++ ofString ")"
  | .slice _ start stop step =>
    ofString "slice(" ++ commaJoin [start.reprWith stored opened, stop.reprWith stored opened,
      step.reprWith stored opened] ++ ofString ")"
  | .error _ e args =>
    ofString e.name ++ ofString "(" ++ commaJoin (reprAllWith stored opened args) ++ ofString ")"
  | v => stored opened v

def reprAllWith (stored : Opened → Value → Spelling) (opened : Opened) :
    List Value → List Spelling
  | [] => []
  | v :: vs => v.reprWith stored opened :: reprAllWith stored opened vs
end

/-- What stands for a container inside its own spelling. -/
def placeholder : Value → List Char
  | .list _ => "[...]".toList
  | .dict _ => "\x7b...\x7d".toList
  | .set _ => "set(...)".toList
  | .tuple .. => "(...)".toList
  | _ => "...".toList

/-- The spelling of an object that has no literal. -/
def addressText (v : Value) : List Char := " at 0x".toList ++ Literal.hexNumber v.identity.code

def defaultRepr (v : Value) : List Char :=
  '<' :: v.kind.name.toList ++ " object".toList ++ v.addressText ++ ['>']

def rangeRepr (r : Range) : List Char :=
  "range(".toList ++ Numeral.decimal r.start.toInt ++ [',', ' '] ++ Numeral.decimal r.stop.toInt ++
    (if r.step = 1 then [] else [',', ' '] ++ Numeral.decimal r.step.toInt) ++ [')']

end Value

namespace Heap

open Spelling (text ofString commaJoin)

def fileRepr (f : File) : List Char :=
  match f.mode with
  | .text => "<_io.TextIOWrapper name=".toList ++ Literal.ofText f.path ++
    " mode='r' encoding='UTF-8'>".toList
  | .binary => "<_io.BufferedReader name=".toList ++ Literal.ofText f.path ++ ['>']

/-- The spelling of a value without items. -/
def reprLeaf (h : Heap) : Value → List Char
  | .none => "None".toList
  | .bool b => if b then "True".toList else "False".toList
  | .int _ n => Numeral.decimal n.toInt
  | .str _ t => Literal.ofText t.chars
  | .bytes _ data => Literal.ofBytes data
  | .bytearray r => "bytearray(".toList ++ Literal.ofBytes (h.bytearray r) ++ [')']
  | .range _ r => Value.rangeRepr r
  | .type k => "<class '".toList ++ k.name.toList ++ ['\'', '>']
  | .builtin f => "<built-in function ".toList ++ f.name.toList ++ ['>']
  | .method _ receiver m =>
    "<built-in method ".toList ++ m.name.toList ++ " of ".toList ++ receiver.kind.name.toList ++
      " object".toList ++ receiver.addressText ++ ['>']
  | .file _ r => fileRepr (h.file r)
  | v => v.defaultRepr

/-- The spelling of a container around the spellings of its items. -/
def reprItems (h : Heap) (item : Value → Spelling) : Value → Spelling
  | .list r => ofString "[" ++ commaJoin ((h.list r).map item) ++ ofString "]"
  | .dict r =>
    ofString "\x7b" ++
      commaJoin ((h.dict r).entries.map fun e => item e.1.value ++ ofString ": " ++ item e.2) ++
      ofString "\x7d"
  | .set r =>
    ofString "\x7b" ++ commaJoin ((h.set r).keys.map (item ·.value)) ++ ofString "\x7d"
  | .view tag part r =>
    let parts :=
      match part with
      | .keys => (h.dict r).keys.map (item ·.value)
      | .values => (h.dict r).values.map item
      | .items =>
        (h.dict r).entries.map fun e =>
          ofString "(" ++ item e.1.value ++ ofString ", " ++ item e.2 ++ ofString ")"
    ofString (Value.view tag part r).kind.name ++ ofString "([" ++ commaJoin parts ++ ofString "])"
  | v => text (h.reprLeaf v)

/-- A container with content that may lead back to it. -/
def isGuarded (h : Heap) : Value → Bool
  | .list _ | .dict _ | .view .. => true
  | .set r => !(h.set r).isEmpty
  | _ => false

/-- Spells a value that is neither a tuple, a slice nor an exception. -/
def reprStored (h : Heap) : Nat → Opened → Value → Spelling
  | 0, _, v => text v.placeholder
  | n + 1, opened, v =>
    if h.isGuarded v then
      if opened.contains v.identity.code then text v.placeholder
      else h.reprItems (Value.reprWith (h.reprStored n) (opened.insert v.identity.code)) v
    else
      match v with
      | .set _ => ofString "set()"
      | v => text (h.reprLeaf v)

/-- Every container on the way from a value to one of its parts is opened once;
besides the stored containers these are the views, which have tags. -/
def reprDepth (h : Heap) : Nat := h.lists.size + h.dicts.size + h.sets.size + h.fresh + 1

def repr (h : Heap) (v : Value) : List Char := v.reprWith (h.reprStored h.reprDepth) ∅ []

end Heap

/-- Texts and exceptions by their content, all else as a literal. An exception
without arguments shows nothing, a failed lookup its key as a literal. -/
def Value.strIn (h : Heap) : Value → List Char
  | .str _ t => t.chars
  | .error _ _ [] => []
  | .error _ e [arg] => if e = .key then h.repr arg else arg.strIn h
  | .error _ _ args =>
    let parts := args.map fun v => Spelling.text (h.repr v)
    '(' :: Spelling.commaJoin parts [')']
  | v => h.repr v

namespace Heap

def str (h : Heap) (v : Value) : List Char := v.strIn h

def errorMessage (h : Heap) (e : Exception) : List Char := h.str e.toValue

def faultMessage (h : Heap) : Fault → List Char
  | .cause c =>
    match c.text? with
    | some s => if c.kind = .key then Literal.ofText s.toList else s.toList
    | none => []
  | .missingKey key => h.repr key
  | .raised e => h.errorMessage e
  | .gap g => g.message.toList
  | .unbounded => "iteration without end".toList

/-- A fault in one line: an exception by its kind and its text, if it has one,
and a gap by the words that mark it. -/
def describe (h : Heap) (f : Fault) : List Char :=
  let text := h.faultMessage f
  match f.kind? with
  | some e => e.name.toList ++ (if text.isEmpty then [] else [':', ' '] ++ text)
  | none => "unsupported operation: ".toList ++ text

/-- The report of a fault that nothing caught. -/
def report (h : Heap) (f : Fault) : List Char :=
  let heading :=
    if f.kind?.isSome then "Traceback (most recent call last):\n" else "InternalError: "
  heading.toList ++ h.describe f

end Heap

end ObjectModel
