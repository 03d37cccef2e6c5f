import ObjectModel.Proofs.Growth
import ObjectModel.Proofs.Program.Basic

/-!
# Nothing is lost or shown twice

A program makes an iterator over a list or a dict and steps it, and in between
it adds to lists and dicts. The iterator is exhausted when it has yielded what
the list or the dict then contains, in order.

Main statement: `Walks.exhausted_iff_shows_all`.
-/

namespace ObjectModel

open ObjectModel.Action

/-- What an iterator over the value walks, if it is live. -/
def Value.source? : Value → Option Source
  | .list r => some (.list r)
  | .dict r => some (.dict .keys r)
  | .view _ part r => some (.dict part r)
  | _ => Option.none

theorem cursor_of_iter {v : Value} {src : Source} {form : CursorKind} {r : Ref .cursor}
    {s t : Session} (live : v.source? = some src)
    (run : (iter v).runOn s = (.ok (.cursor form r), t)) :
    t.heap.cursor r = src.cursor 0 false := by
  have made {form' : CursorKind} {c : Cursor}
      (run : (newCursor form' c).runOn s = (.ok (.cursor form r), t)) : t.heap.cursor r = c := by
    obtain ⟨r', t', run', placed⟩ := runOn_newCursor form' c s
    cases run'.symm.trans run
    exact placed
  cases v with
  | list | dict | view =>
    cases live
    exact made run
  | _ => cases live

-- ---------------------------------------------------------------------------
-- Operations
-- ---------------------------------------------------------------------------

/-- Operations that make values, that iterate, and that add to lists and dicts. -/
inductive Operation.Grows : Operation → Prop
  | int (n : Int64) : Grows (.int n)
  | text (t : Text) : Grows (.text t)
  | bytes (data : List UInt8) : Grows (.bytes data)
  | tuple (items : List Value) : Grows (.tuple items)
  | list (items : List Value) : Grows (.list items)
  | iter (v : Value) : Grows (.iter v)
  | next (v : Value) : Grows (.next v)
  | append (l : Ref .list) (a : Arguments) : Grows (.callMethod (.list l) "append".toList a)
  | extend (l : Ref .list) (a : Arguments) : Grows (.callMethod (.list l) "extend".toList a)
  | extendInPlace (l : Ref .list) (v : Value) : Grows (.inPlace .add (.list l) v)
  | setItem (d : Ref .dict) (k v : Value) : Grows (.setItem (.dict d) k v)
  | setDefault (d : Ref .dict) (a : Arguments) :
    Grows (.callMethod (.dict d) "setdefault".toList a)
  | update (d : Ref .dict) (a : Arguments) : Grows (.callMethod (.dict d) "update".toList a)

namespace Operation

variable {src : Source} {form : CursorKind} {r : Ref .cursor} {o : Operation}

theorem Grows.within_action (grows : o.Grows) : Within (src.Tracked form r) o.action := by
  have hands {a : Action Value} (ha : Within (src.Tracked form r) a) :
      Within (src.Tracked form r) (hands a) := .bind ha fun _ => .pure _
  cases grows with
  | int n => exact hands (.of_moves (.newInt n))
  | text t => exact hands (.of_moves (.newText t))
  | bytes data => exact hands (.of_moves (.newBytes data))
  | tuple items => exact hands (.of_moves (.newTuple items))
  | list items => exact hands (src.within_newList items)
  | iter v => exact hands (.of_moves (.iter v))
  | next v => exact .bind (.of_moves (.next v)) fun _ => .pure _
  | append l a => exact hands (.callMethod rfl rfl (src.within_callList _ l (.inl rfl) a))
  | extend l a => exact hands (.callMethod rfl rfl (src.within_callList _ l (.inr rfl) a))
  | extendInPlace l v => exact hands (.bind (src.within_extendList l v) fun _ => .pure _)
  | setItem d k v => exact .bind (src.within_setItem d k v) fun _ => .pure _
  | setDefault d a => exact hands (.callMethod rfl rfl (src.within_callDict d (.inl rfl) a))
  | update d a => exact hands (.callMethod rfl rfl (src.within_callDict d (.inr rfl) a))

theorem Grows.within_attempt (grows : o.Grows) : Within (src.Tracked form r) o.attempt :=
  .tryCatch grows.within_action fun f => .bind (.caught? f) fun _ => .pure _

end Operation

-- ---------------------------------------------------------------------------
-- Runs
-- ---------------------------------------------------------------------------

namespace Program

/-- A program that makes an iterator, steps it, and does operations that grow
what there is, which may step it as well. What the iterator yields is recorded
with the heap that it was yielded in. -/
inductive Walks (src : Source) (form : CursorKind) (r : Ref .cursor) :
    List (Heap × Value) → Program → Prop
  | iter {p : Program} {v : Value} {s : Session} : v.source? = some src →
    (Action.iter v).runOn p.session = (.ok (.cursor form r), s) →
    Walks src form r [] (p.perform (.iter v))
  | next {ys : List (Heap × Value)} {p : Program} {x : Value} {s : Session} :
    Walks src form r ys p → (Action.next (.cursor form r)).runOn p.session = (.ok (some x), s) →
    Walks src form r (ys ++ [(p.heap, x)]) (p.perform (.next (.cursor form r)))
  | grow {ys zs : List (Heap × Value)} {p : Program} {o : Operation} : Walks src form r ys p →
    o.Grows → src.Walk form r p.session zs (p.perform o).session →
    Walks src form r (ys ++ zs) (p.perform o)

variable {src : Source} {form : CursorKind} {r : Ref .cursor} {ys : List (Heap × Value)}
  {p : Program}

theorem Walks.walk (walks : Walks src form r ys p) :
    ∃ s, s.heap.cursor r = src.cursor 0 false ∧ src.Walk form r s ys p.session := by
  induction walks with
  | iter live run =>
    rw [perform_of_ok (runOn_bind_of_ok run _)]
    exact ⟨_, cursor_of_iter live run, .start⟩
  | next _ run ih =>
    obtain ⟨s, opened, walk⟩ := ih
    rw [perform_next run]
    exact ⟨s, opened, walk.step run⟩
  | grow _ _ more ih =>
    obtain ⟨s, opened, walk⟩ := ih
    exact ⟨s, opened, walk.trans more⟩

/-- An operation that leaves the cursor where it is does not add to the record. -/
theorem Walks.still (walks : Walks src form r ys p) {o : Operation} (grows : o.Grows)
    (same : (p.perform o).heap.cursor r = p.heap.cursor r)
    (grown : src.walked p.heap <+: src.walked (p.perform o).heap) :
    Walks src form r ys (p.perform o) := by
  have more := walks.grow grows (.grow .start same grown)
  rwa [List.append_nil] at more

/-- Wherever such a walk leads, the iterator is exhausted exactly when it has
yielded all items of the list, or all keys of the dict with what was stored with
them at that moment, each once and in order. An operation that grows what there
is goes on with the walk, or exhausts the iterator in its course. -/
theorem Walks.exhausted_iff_shows_all (walks : Walks src form r ys p) :
    (∀ zs t, src.Walk form r p.session zs t →
      (Exhausted form r t ↔ src.ShowsAll (ys ++ zs) (src.walked t.heap))) ∧
    ∀ o : Operation, o.Grows →
      (∃ zs, Walks src form r (ys ++ zs) (p.perform o)) ∨
      ∃ zs t, src.Walk form r p.session zs t ∧ Exhausted form r t := by
  obtain ⟨s, opened, walk⟩ := walks.walk
  constructor
  · intro zs t more
    exact (walk.trans more).exhausted_iff opened
  · intro o grows
    rcases grows.within_attempt p.session _ (walk.cursor_eq opened) with ⟨zs, more⟩ | ended
    · rw [← session_perform] at more
      exact .inl ⟨zs, walks.grow grows more⟩
    · exact .inr ended

/-- A program that has stored `{None: True}` and iterates over its items. -/
def opened : Program :=
  ((start [] false).perform (.dict [.pair .none (.bool true)])).perform (.iter (.view 0 .items ⟨0⟩))

/-- The same after one step, with the value overwritten and a new key. -/
def regrown : Program :=
  ((opened.perform (.next (.cursor (.dict .items) ⟨0⟩))).perform
    (.setItem (.dict ⟨0⟩) .none (.bool false))).perform (.setItem (.dict ⟨0⟩) (.bool true) .none)

theorem walks_regrown : Walks (.dict .items ⟨0⟩) (.dict .items) ⟨0⟩
    [(opened.heap, .tuple 1 [.none, .bool true])] regrown := by
  have stepped : Walks (.dict .items ⟨0⟩) (.dict .items) ⟨0⟩
      [(opened.heap, .tuple 1 [.none, .bool true])] _ := .next (.iter rfl rfl) rfl
  have overwritten := stepped.still (.setItem ⟨0⟩ .none (.bool false)) rfl ⟨[], rfl⟩
  exact overwritten.still (.setItem ⟨0⟩ (.bool true) .none) rfl ⟨[.bool true], rfl⟩

/-- The item keeps the value that it was yielded with, and the new key is shown. -/
theorem shows_all_of_regrown : ∃ ys p,
    Walks (.dict .items ⟨0⟩) (.dict .items) ⟨0⟩ ys p ∧
    ys.map (·.2) = [.tuple 1 [.none, .bool true], .tuple 2 [.bool true, .none]] ∧
    Source.ShowsAll (.dict .items ⟨0⟩) ys [.none, .bool true] := by
  have walks := walks_regrown.next rfl
  refine ⟨_, _, walks, rfl, ?_⟩
  exact (walks.exhausted_iff_shows_all.1 [] _ .start).1 rfl

end Program

end ObjectModel
