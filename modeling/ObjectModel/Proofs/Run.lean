import Mathlib.Order.Defs.Unbundled
import ObjectModel.Call.Basic

/-!
# Running actions

How an action that is built from others runs on a session.
-/

namespace ObjectModel

/-- The characters that a value is made of. -/
def Value.chars : Value → List Char
  | .str _ t => t.chars
  | _ => []

/-- The value is a string of these characters. -/
def Value.Spells (v : Value) (cs : List Char) : Prop := ∃ tag, v = .str tag (.ofChars cs)

theorem Value.Spells.chars {v : Value} {cs : List Char} (h : v.Spells cs) : v.chars = cs := by
  obtain ⟨tag, rfl⟩ := h
  rfl

/-- The session with another next tag. -/
def Session.reach (s : Session) (fresh : Tag) : Session :=
  { s with heap := { s.heap with fresh } }

/-- The session after one tag has been used. -/
def Session.tick (s : Session) : Session :=
  { s with heap := { s.heap with fresh := s.heap.fresh + 1 } }

namespace Action

variable {α β : Type}

@[simp] theorem runOn_pure (x : α) (s : Session) : (pure x : Action α).runOn s = (.ok x, s) := rfl

@[simp] theorem runOn_throw (f : Fault) (s : Session) :
    (throw f : Action α).runOn s = (.error f, s) := rfl

@[simp] theorem runOn_heap (s : Session) : heap.runOn s = (.ok s.heap, s) := rfl

theorem runOn_readList (r : Ref .list) (s : Session) :
    (readList r).runOn s = (.ok (s.heap.list r), s) := rfl

theorem runOn_readListItem? (r : Ref .list) (position : Nat) (s : Session) :
    (readListItem? r position).runOn s = (.ok (s.heap.listItem? r position), s) := rfl

theorem runOn_readDict (r : Ref .dict) (s : Session) :
    (readDict r).runOn s = (.ok (s.heap.dict r), s) := rfl

theorem runOn_readSet (r : Ref .set) (s : Session) :
    (readSet r).runOn s = (.ok (s.heap.set r), s) := rfl

theorem runOn_readBytearray (r : Ref .bytearray) (s : Session) :
    (readBytearray r).runOn s = (.ok (s.heap.bytearray r), s) := rfl

theorem runOn_readBytearrayItem? (r : Ref .bytearray) (position : Nat) (s : Session) :
    (readBytearrayItem? r position).runOn s = (.ok (s.heap.bytearrayItem? r position), s) := rfl

theorem runOn_readCursor (r : Ref .cursor) (s : Session) :
    (readCursor r).runOn s = (.ok (s.heap.cursor r), s) := rfl

/-- A list is made beside those that there are. -/
theorem runOn_newList (items : List Value) (s : Session) :
    ∃ s', (newList items).runOn s = (.ok (.list ⟨s.heap.lists.size⟩), s') ∧
      s'.heap.list ⟨s.heap.lists.size⟩ = items ∧ s'.heap.lists.size = s.heap.lists.size + 1 ∧
      ∀ r : Ref .list, r.index < s.heap.lists.size → s'.heap.list r = s.heap.list r := by
  refine ⟨_, rfl, ?_, Store.size_push .., ?_⟩
  · exact congrArg Array.toList (Store.get_push_size ..)
  · intro r hr
    exact congrArg Array.toList (Store.get_push_of_lt _ _ hr)

theorem runOn_newSet (keys : KeySet) (s : Session) :
    ∃ s', (newSet keys).runOn s = (.ok (.set ⟨s.heap.sets.size⟩), s') ∧
      s'.heap.set ⟨s.heap.sets.size⟩ = keys ∧ s'.heap.sets.size = s.heap.sets.size + 1 ∧
      ∀ r : Ref .set, r.index < s.heap.sets.size → s'.heap.set r = s.heap.set r :=
  ⟨_, rfl, Store.get_push_size .., Store.size_push .., fun _ hr => Store.get_push_of_lt _ _ hr⟩

/-- A failure ends the sequence and keeps the session as it left it. -/
theorem runOn_bind (a : Action α) (f : α → Action β) (s : Session) :
    (a >>= f).runOn s =
      match a.runOn s with
      | (.ok x, after) => (f x).runOn after
      | (.error e, after) => (.error e, after) := by
  simp only [bind, ExceptT.bind, runOn, ExceptT.run, ExceptT.mk, StateT.bind]
  obtain ⟨_ | _, _⟩ := a s <;> rfl

theorem runOn_bind_of_ok {a : Action α} {x : α} {s after : Session} (ha : a.runOn s = (.ok x, after))
    (f : α → Action β) : (a >>= f).runOn s = (f x).runOn after := by
  rw [runOn_bind, ha]

theorem runOn_bind_of_error {a : Action α} {e : Fault} {s after : Session}
    (ha : a.runOn s = (.error e, after)) (f : α → Action β) :
    (a >>= f).runOn s = (.error e, after) := by
  rw [runOn_bind, ha]

theorem runOn_lift_of_ok {e : Except Cause α} {x : α} (he : e = .ok x) (s : Session) :
    (liftM e : Action α).runOn s = (.ok x, s) := by
  rw [he]
  rfl

theorem runOn_lift_of_error {e : Except Cause α} {c : Cause} (he : e = .error c) (s : Session) :
    (liftM e : Action α).runOn s = (.error (.cause c), s) := by
  rw [he]
  rfl

/-- An object that is there already, or is made under the next tag. -/
theorem runOn_makeUnless (shared : Bool) (mk : Tag → Value) (s : Session) :
    ∃ tag fresh, (do return mk (← tagUnless shared) : Action Value).runOn s =
      (.ok (mk tag), s.reach fresh) := by
  cases shared with
  | true => exact ⟨Tag.shared, s.heap.fresh, rfl⟩
  | false => exact ⟨s.heap.fresh, s.heap.fresh + 1, rfl⟩

theorem runOn_newInt (n : Int64) (s : Session) :
    ∃ tag fresh, (newInt n).runOn s = (.ok (.int tag n), s.reach fresh) :=
  runOn_makeUnless (isSmall n) (.int · n) s

theorem runOn_newChars (cs : List Char) (s : Session) :
    ∃ tag fresh, (newChars cs).runOn s = (.ok (.str tag (.ofChars cs)), s.reach fresh) :=
  runOn_makeUnless (Text.ofChars cs).isEmpty (.str · (.ofChars cs)) s

theorem runOn_newTuple (items : List Value) (s : Session) :
    ∃ tag fresh, (newTuple items).runOn s = (.ok (.tuple tag items), s.reach fresh) :=
  runOn_makeUnless items.isEmpty (.tuple · items) s

/-- A sequence that succeeds has succeeded in both its parts. -/
theorem exists_of_runOn_bind {a : Action α} {f : α → Action β} {y : β} {s t : Session}
    (run : (a >>= f).runOn s = (.ok y, t)) :
    ∃ x u, a.runOn s = (.ok x, u) ∧ (f x).runOn u = (.ok y, t) := by
  rw [runOn_bind] at run
  split at run
  · next x u first => exact ⟨x, u, first, run⟩
  · cases run

theorem of_runOn_lift {e : Except Cause α} {x : α} {s t : Session}
    (run : (liftM e : Action α).runOn s = (.ok x, t)) : e = .ok x ∧ s = t := by
  cases e with
  | ok y =>
    cases run
    exact ⟨rfl, rfl⟩
  | error c => cases run

/-- A handler runs on the session that the failure left. -/
theorem runOn_tryCatch (a : Action α) (f : Fault → Action α) (s : Session) :
    (tryCatch a f).runOn s =
      match a.runOn s with
      | (.ok x, after) => (.ok x, after)
      | (.error e, after) => (f e).runOn after := by
  simp only [tryCatch, tryCatchThe, MonadExceptOf.tryCatch, ExceptT.tryCatch, bind, runOn,
    ExceptT.run, ExceptT.mk, StateT.bind]
  obtain ⟨_ | _, _⟩ := a s <;> rfl

/-- Looking a method up uses a tag; then the method is called. -/
theorem runOn_callMethod {v : Value} {name : List Char} {m : Method}
    (parts : part? v (String.ofList name) = pure none)
    (found : (Method.ofName? (String.ofList name)).filter v.supports = some m) (a : Arguments)
    (s : Session) : (callMethod v name a).runOn s = (m.call applyKey v a).runOn s.tick := by
  have bound : (getAttr v name).runOn s = (.ok (.method s.heap.fresh v m), s.tick) := by
    rw [getAttr, parts, runOn_bind_of_ok (runOn_pure ..), found]
    rfl
  rw [callMethod, runOn_bind_of_ok bound]
  rfl

-- ---------------------------------------------------------------------------
-- Relations between the sessions before and after
-- ---------------------------------------------------------------------------

section
variable {R : Session → Session → Prop}

/-- Wherever the action starts, the relation leads to where it ends. -/
def Within (R : Session → Session → Prop) (a : Action α) : Prop := ∀ s, R s (a.runOn s).2

namespace Within

theorem of_runOn {a : Action α} {x : Except Fault α} {s t : Session} (ha : Within R a)
    (run : a.runOn s = (x, t)) : R s t := by
  have related := ha s
  rwa [run] at related

variable [IsPreorder Session R]

theorem pure (x : α) : Within R (pure x : Action α) := refl_of R

theorem throw (f : Fault) : Within R (throw f : Action α) := refl_of R

theorem bind {a : Action α} {f : α → Action β} (ha : Within R a) (hf : ∀ x, Within R (f x)) :
    Within R (a >>= f) := by
  intro s
  rw [runOn_bind]
  match run : a.runOn s with
  | (.ok x, after) => exact trans_of R (of_runOn ha run) (hf x after)
  | (.error e, after) => exact of_runOn ha run

theorem tryCatch {a : Action α} {f : Fault → Action α} (ha : Within R a)
    (hf : ∀ e, Within R (f e)) : Within R (tryCatch a f) := by
  intro s
  rw [runOn_tryCatch]
  match run : a.runOn s with
  | (.ok x, after) => exact of_runOn ha run
  | (.error e, after) => exact trans_of R (of_runOn ha run) (hf e after)

theorem lift (x : Except Cause α) : Within R (liftM x : Action α) := by
  cases x with
  | ok x => exact pure x
  | error c => exact throw _

theorem read (g : Heap → α) : Within R (do return g (← heap)) := refl_of R

theorem heap : Within R heap := read id

theorem forM {f : β → Action PUnit} (hf : ∀ x, Within R (f x)) (xs : List β) :
    Within R (xs.forM f) := by
  induction xs with
  | nil => exact pure _
  | cons x xs ih => exact bind (hf x) fun _ => ih

theorem byteOperand (onto : Kind) (v : Value) : Within R (byteOperand onto v) := by
  refine bind heap fun h => ?_
  split
  · exact pure _
  · exact throw _

theorem setOperand (symbol : String) (v : Value) : Within R (setOperand symbol v) := by
  cases v with
  | set r => exact read (·.set r)
  | _ => exact throw _

theorem tagUnless (fresh : Within R freshTag) (shared : Bool) : Within R (tagUnless shared) := by
  cases shared with
  | true => exact pure Tag.shared
  | false => exact fresh

end Within

end

end Action

end ObjectModel
