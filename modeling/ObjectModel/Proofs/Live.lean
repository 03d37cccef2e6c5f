import ObjectModel.Iteration
import ObjectModel.Proofs.Equality.Keyed
import ObjectModel.Proofs.Run

/-!
# Live cursors

A cursor over a list or over a dict walks it from the front and reads it anew at
each step. A step shows what stands at its place at that moment and goes one
place on, or finds the end.

Main statements: `runOn_live_some` and `runOn_live_none`.
-/

namespace ObjectModel

open ObjectModel.Action

/-- What a live cursor walks. -/
inductive Source where
  | list (r : Ref .list)
  | dict (part : Part) (r : Ref .dict)

namespace Source

/-- The cursor at a place of the source, or at its end. -/
def cursor : Source → Nat → Bool → Cursor
  | .list r, position, done => .list r position done
  | .dict part r, position, done => .dict part r position done

/-- The items of the list, the keys of the dict. -/
def walked (h : Heap) : Source → List Value
  | .list r => h.list r
  | .dict _ r => (h.dict r).keys.map (·.value)

/-- What a step shows of an item or a key: itself, the value that is stored with
it, or both. -/
def Shows (h : Heap) (key : Value) : Source → Value → Prop
  | .list _, x | .dict .keys _, x => x = key
  | .dict .values r, x => ∃ k : Key, k.value = key ∧ (h.dict r).find? k = some x
  | .dict .items r, x => ∃ (k : Key) (v : Value) (tag : Tag),
    k.value = key ∧ (h.dict r).find? k = some v ∧ x = .tuple tag [key, v]

end Source

/-- What a cursor walks, if it is live. -/
def Cursor.source? : Cursor → Option Source
  | .list r _ _ => some (.list r)
  | .dict part r _ _ => some (.dict part r)
  | _ => none

/-- What the mutable containers of a heap hold. -/
def Heap.contents (h : Heap) :
    Store (Array Value) × Store Table × Store KeySet × Store (Array UInt8) :=
  (h.lists, h.dicts, h.sets, h.bytearrays)

/-- The session with a cursor put somewhere. -/
def Session.place (s : Session) (r : Ref .cursor) (c : Cursor) : Session :=
  { s with heap := s.heap.putCursor r c }

variable {src : Source} {s : Session} {r : Ref .cursor} {n : Nat} {key : Value}
  {next : Value → Action (Option Value)}

@[simp] theorem Source.source?_cursor (src : Source) (n : Nat) (done : Bool) :
    (src.cursor n done).source? = some src := by
  cases src <;> rfl

theorem Cursor.exists_of_source? {c : Cursor} (live : c.source? = some src) :
    ∃ n done, c = src.cursor n done := by
  cases c with
  | list r n done | dict part r n done =>
    cases live
    exact ⟨n, done, rfl⟩
  | _ => cases live

theorem Source.walked_congr {h h' : Heap} (same : h.contents = h'.contents) (src : Source) :
    src.walked h = src.walked h' := by
  simp only [Heap.contents, Prod.mk.injEq] at same
  obtain ⟨lists, dicts, -, -⟩ := same
  cases src with
  | list r => simp only [walked, Heap.list, lists]
  | dict part r => simp only [walked, Heap.dict, dicts]

theorem runOn_list_some {l : Ref .list} (hc : s.heap.cursor r = .list l n false)
    (hn : (s.heap.list l)[n]? = some key) :
    (advanceCursor next r).runOn s = (.ok (some key), s.place r (.list l (n + 1) false)) := by
  rw [advanceCursor, runOn_bind_of_ok (runOn_readCursor ..), hc]
  change (readListItem? l n >>= _).runOn s = _
  rw [runOn_bind_of_ok (runOn_readListItem? ..), Heap.listItem?_eq, hn]
  rfl

/-- A step shows the item or the key at its place, or what is stored with it. -/
theorem runOn_live_some (hc : s.heap.cursor r = src.cursor n false)
    (hn : (src.walked s.heap)[n]? = some key) :
    ∃ x fresh, (∀ next, (advanceCursor next r).runOn s =
      (.ok (some x), (s.place r (src.cursor (n + 1) false)).reach fresh)) ∧
      src.Shows s.heap key x := by
  cases src with
  | list l =>
    exact ⟨key, s.heap.fresh, fun _ => runOn_list_some hc hn, rfl⟩
  | dict part d =>
    obtain ⟨⟨k, v⟩, entry, rfl⟩ : ∃ e, (s.heap.dict d).entryAt? n = some e ∧ e.1.value = key := by
      simpa [Source.walked, Keyed.keys, Keyed.entryAt?_eq] using hn
    have found := Keyed.find?_of_entryAt? entry
    have stepped : (readDict d).runOn s = (.ok (s.heap.dict d), s) := runOn_readDict ..
    cases part with
    | keys =>
      refine ⟨k.value, s.heap.fresh, fun next => ?_, rfl⟩
      rw [advanceCursor, runOn_bind_of_ok (runOn_readCursor ..), hc]
      simp only [Source.cursor, Bool.false_eq_true, ↓reduceIte, runOn_bind_of_ok stepped, entry]
      rfl
    | values =>
      refine ⟨v, s.heap.fresh, fun next => ?_, k, rfl, found⟩
      rw [advanceCursor, runOn_bind_of_ok (runOn_readCursor ..), hc]
      simp only [Source.cursor, Bool.false_eq_true, ↓reduceIte, runOn_bind_of_ok stepped, entry]
      rfl
    | items =>
      refine ⟨.tuple s.heap.fresh [k.value, v], s.heap.fresh + 1, fun next => ?_,
        k, v, _, rfl, found, rfl⟩
      rw [advanceCursor, runOn_bind_of_ok (runOn_readCursor ..), hc]
      simp only [Source.cursor, Bool.false_eq_true, ↓reduceIte, runOn_bind_of_ok stepped, entry]
      rfl

/-- A step past the last place finds the end. -/
theorem runOn_live_none (hc : s.heap.cursor r = src.cursor n false)
    (hn : (src.walked s.heap)[n]? = none) :
    (advanceCursor next r).runOn s = (.ok none, s.place r (src.cursor n true)) := by
  rw [advanceCursor, runOn_bind_of_ok (runOn_readCursor ..), hc]
  cases src with
  | list l =>
    have item : (s.heap.list l)[n]? = none := hn
    change (readListItem? l n >>= _).runOn s = _
    rw [runOn_bind_of_ok (runOn_readListItem? ..), Heap.listItem?_eq, item]
    rfl
  | dict part d =>
    have entry : (s.heap.dict d).entryAt? n = none := by
      simpa [Source.walked, Keyed.keys, Keyed.entryAt?_eq] using hn
    change (readDict d >>= _).runOn s = _
    rw [runOn_bind_of_ok (runOn_readDict ..), entry]
    rfl

end ObjectModel
