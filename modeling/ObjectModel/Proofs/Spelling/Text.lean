import ObjectModel.Heap.Repr
import ObjectModel.Proofs.World.Basic

/-!
# The text of a value, case by case

A spelling puts its text in front of whatever follows, so the text of a
container is put together from the texts of its items. `Heap.textAt` is the text
of a value inside the containers that are being spelled.

Main statements: the equations of `textAt`, one for each kind of value that has
items.
-/

namespace ObjectModel

namespace Spelling

/-- The spelling puts the same text in front of everything. -/
def IsText (s : Spelling) : Prop := s = text (s [])

/-- Texts between two others, separated by commas. -/
def enclose (opening : List Char) (texts : List (List Char)) (closing : List Char) : List Char :=
  opening ++ [',', ' '].intercalate texts ++ closing

theorem isText_text (cs : List Char) : IsText (text cs) := by simp [IsText]

theorem text_append_text (cs ds : List Char) : text cs ++ text ds = text (cs ++ ds) :=
  funext fun rest => by simp

theorem map_eq_map_text {α : Type} {item : α → Spelling} {xs : List α}
    (texts : ∀ x ∈ xs, IsText (item x)) : xs.map item = (xs.map (item · [])).map text := by
  rw [List.map_map]
  exact List.map_congr_left texts

theorem enclosed_eq_text (opening : List Char) (parts : List (List Char)) (closing : List Char) :
    text opening ++ commaJoin (parts.map text) ++ text closing =
      text (enclose opening parts closing) := by
  have joined : commaJoin (parts.map text) = text ([',', ' '].intercalate parts) :=
    funext (commaJoin_text parts)
  rw [joined, text_append_text, text_append_text, enclose]

theorem enclosed_nil {α : Type} (opening : List Char) (f : α → List Char) (xs : List α)
    (closing : List Char) :
    (text opening ++ commaJoin (xs.map fun x => text (f x)) ++ text closing) [] =
      enclose opening (xs.map f) closing := by
  have same : (xs.map fun x => text (f x)) = (xs.map f).map text := by simp
  rw [same, enclosed_eq_text, text_apply, List.append_nil]

end Spelling

open Spelling

namespace Value

variable {stored : Opened → Value → Spelling}

theorem reprAllWith_eq_map (stored : Opened → Value → Spelling) (opened : Opened)
    (vs : List Value) : reprAllWith stored opened vs = vs.map (·.reprWith stored opened) := by
  induction vs with
  | nil => rfl
  | cons v vs ih => rw [reprAllWith, ih, List.map_cons]

/-- Immutable containers but for views. -/
def isTree : Value → Bool
  | .tuple .. | .slice .. | .error .. => true
  | _ => false

theorem reprWith_of_not_isTree {v : Value} (stored : Opened → Value → Spelling) (opened : Opened)
    (tree : v.isTree = false) : v.reprWith stored opened = stored opened v := by
  rw [reprWith.eq_def]
  split <;> first | cases tree | rfl

theorem isText_reprWith (texts : ∀ opened v, IsText (stored opened v)) (opened : Opened)
    (v : Value) : IsText (v.reprWith stored opened) := by
  induction v using inductParts generalizing opened with
  | step v ih =>
    rw [reprWith.eq_def]
    unfold ofString
    split
    · rw [ih _ (List.mem_singleton_self _) opened, text_append_text, text_append_text]
      exact isText_text _
    · next tag items _ =>
      dsimp only
      split
      · exact isText_text _
      · rw [reprAllWith_eq_map, map_eq_map_text fun u (hu : u ∈ items) => ih u hu _,
          enclosed_eq_text]
        exact isText_text _
    · next tag start stop step =>
      have items := map_eq_map_text fun u (hu : u ∈ [start, stop, step]) => ih u hu opened
      simp only [List.map_cons, List.map_nil] at items
      rw [items]
      exact enclosed_eq_text _ [_, _, _] _ ▸ isText_text _
    · next tag e args =>
      rw [reprAllWith_eq_map, map_eq_map_text fun u (hu : u ∈ args) => ih u hu opened,
        text_append_text, enclosed_eq_text]
      exact isText_text _
    · exact texts opened _

end Value

namespace Heap

variable (h : Heap)

/-- What a container with content shows, given the texts of values. -/
def contentText (f : Value → List Char) : Value → List Char
  | .list r => enclose ['['] ((h.list r).map f) [']']
  | .dict r =>
    enclose ['\x7b'] ((h.dict r).entries.map fun e => f e.1.value ++ [':', ' '] ++ f e.2) ['\x7d']
  | .set r => enclose ['\x7b'] (((h.set r).keys.map (·.value)).map f) ['\x7d']
  | .view tag part r =>
    enclose ((Value.view tag part r).kind.name.toList ++ ['(', '['])
      (match part with
      | .keys => ((h.dict r).keys.map (·.value)).map f
      | .values => (h.dict r).values.map f
      | .items => (h.dict r).entries.map fun e => enclose ['('] [f e.1.value, f e.2] [')'])
      [']', ')']
  | v => h.reprLeaf v

theorem reprItems_eq_text (f : Value → List Char) (v : Value) :
    h.reprItems (fun v => text (f v)) v = text (h.contentText f v) := by
  cases v with
  | list r | set r =>
    simp only [contentText, ← enclosed_eq_text, List.map_map]
    rfl
  | dict r =>
    simp only [contentText, ← enclosed_eq_text, List.map_map, reprItems, ofString, text_append_text]
    rfl
  | view tag part r =>
    cases part with
    | keys | values =>
      simp only [contentText, ← enclosed_eq_text, ← text_append_text, List.map_map]
      rfl
    | items =>
      have pairs : (text ∘ fun e : Key × Value => enclose ['('] [f e.1.value, f e.2] [')']) =
          fun e => ofString "(" ++ text (f e.1.value) ++ ofString ", " ++ text (f e.2) ++
            ofString ")" :=
        funext fun e => (enclosed_eq_text ['('] [f e.1.value, f e.2] [')']).symm
      simp only [contentText, ← enclosed_eq_text, ← text_append_text, List.map_map, pairs]
      rfl
  | _ => rfl

theorem isText_reprStored (k : Nat) (opened : Opened) (v : Value) :
    IsText (h.reprStored k opened v) := by
  induction k generalizing opened v with
  | zero => exact isText_text _
  | succ k ih =>
    rw [reprStored.eq_def]
    dsimp only
    split_ifs
    · exact isText_text _
    · have items : Value.reprWith (h.reprStored k) (opened.insert v.identity.code) = _ :=
        funext (Value.isText_reprWith ih _)
      rw [items, reprItems_eq_text]
      exact isText_text _
    · split <;> exact isText_text _

/-- The text of a value inside the containers that are open, with so many levels of
stored containers to go. -/
def textAt (k : Nat) (opened : Opened) (v : Value) : List Char :=
  v.reprWith (h.reprStored k) opened []

theorem reprWith_eq_text (k : Nat) (opened : Opened) :
    Value.reprWith (h.reprStored k) opened = fun v => text (h.textAt k opened v) :=
  funext (Value.isText_reprWith (h.isText_reprStored k) opened)

variable {k : Nat} {opened : Opened}

theorem textAt_tuple_one (tag : Tag) (item : Value) :
    h.textAt k opened (.tuple tag [item]) = ['('] ++ h.textAt k opened item ++ [',', ')'] := by
  rw [textAt, Value.reprWith, reprWith_eq_text]
  rfl

theorem textAt_tuple {tag : Tag} {items : List Value} (several : items.length ≠ 1) :
    h.textAt k opened (.tuple tag items) =
      let me := (Value.tuple tag items).identity.code
      if opened.contains me then (Value.tuple tag items).placeholder
      else enclose ['('] (items.map (h.textAt k (opened.insert me))) [')'] := by
  rw [textAt, Value.reprWith]
  · dsimp only
    split_ifs
    · rfl
    · rw [Value.reprAllWith_eq_map, reprWith_eq_text]
      exact enclosed_nil ['('] _ items [')']
  · rintro item rfl
    exact several rfl

theorem textAt_slice (tag : Tag) (start stop step : Value) :
    h.textAt k opened (.slice tag start stop step) =
      enclose "slice(".toList ([start, stop, step].map (h.textAt k opened)) [')'] := by
  rw [textAt, Value.reprWith, reprWith_eq_text]
  exact enclosed_nil "slice(".toList _ [start, stop, step] [')']

theorem textAt_error (tag : Tag) (e : ErrorKind) (args : List Value) :
    h.textAt k opened (.error tag e args) =
      enclose (e.name.toList ++ ['(']) (args.map (h.textAt k opened)) [')'] := by
  rw [textAt, Value.reprWith, Value.reprAllWith_eq_map, reprWith_eq_text, ← enclosed_nil,
    ← text_append_text]
  rfl

theorem textAt_guarded {v : Value} (guarded : h.isGuarded v = true) :
    h.textAt (k + 1) opened v =
      if opened.contains v.identity.code then v.placeholder
      else h.contentText (h.textAt k (opened.insert v.identity.code)) v := by
  have tree : v.isTree = false := by cases v <;> first | rfl | cases guarded
  rw [textAt, Value.reprWith_of_not_isTree _ _ tree, reprStored.eq_def]
  dsimp only
  rw [if_pos guarded, reprWith_eq_text, reprItems_eq_text]
  split_ifs <;> exact List.append_nil _

theorem textAt_emptySet {r : Ref .set} (empty : (h.set r).isEmpty = true) :
    h.textAt (k + 1) opened (.set r) = "set()".toList := by
  have plain : h.isGuarded (.set r) = false := by simp [isGuarded, empty]
  rw [textAt, Value.reprWith_of_not_isTree _ _ rfl, reprStored, plain]
  exact List.append_nil _

theorem textAt_leaf {v : Value} (tree : v.isTree = false) (plain : h.isGuarded v = false)
    (notSet : v.kind ≠ .set) : h.textAt (k + 1) opened v = h.reprLeaf v := by
  rw [textAt, Value.reprWith_of_not_isTree _ _ tree, reprStored.eq_def]
  dsimp only
  rw [if_neg (by simp [plain])]
  split
  · exact absurd rfl notSet
  · exact List.append_nil _

end Heap

end ObjectModel
