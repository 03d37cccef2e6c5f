import ObjectModel.Proofs.World.Call

/-!
# Programs

A program is at any moment a session and the values that it has been handed. Its
operations are those of the library; they are applied to values that the program
holds. Exceptions are caught and held as well.

Main statement: `Reachable.modeled` says that some world models the heap of a
program and has all that the program holds. So does `Reachable.has` for each
value that it holds.
-/

namespace ObjectModel

open ObjectModel.Action World

/-- An operation, with what it is applied to. -/
inductive Operation where
  | int (n : Int64)
  | text (t : Text)
  | bytes (data : List UInt8)
  | bytearray (data : List UInt8)
  | tuple (items : List Value)
  | list (items : List Value)
  | set (items : List Value)
  | dict (items : List DictMethod.DisplayItem)
  | range (start stop step : Int64)
  | slice (start stop step : Value)
  | unary (op : UnaryOp) (v : Value)
  | binary (op : BinaryOp) (a b : Value)
  | inPlace (op : BinaryOp) (a b : Value)
  | compare (op : Comparison) (a b : Value)
  | equals (a b : Value)
  | contains (container v : Value)
  | truth (v : Value)
  | length (v : Value)
  | hash (v : Value)
  | indexValue (v : Value)
  | intValue (v : Value)
  | repr (v : Value)
  | str (v : Value)
  | format (v : Value) (spec : List Char)
  | getItem (source key : Value)
  | setItem (target key value : Value)
  | delItem (target key : Value)
  | getAttr (v : Value) (name : List Char)
  | setAttr (v : Value) (name : List Char) (value : Value)
  | delAttr (v : Value) (name : List Char)
  | call (f : Value) (a : Arguments)
  | callMethod (receiver : Value) (name : List Char) (a : Arguments)
  | callBuiltin (name : String) (a : Arguments)
  | iter (v : Value)
  | next (v : Value)
  | enter (v : Value)
  | exit (v : Value)
  | raise (v : Value)
  | takeOutput

/-- The values among the arguments of a call. -/
def Arguments.values (a : Arguments) : List Value :=
  a.positional ++ a.keywords.entries.flatMap fun e => [e.1.value, e.2]

namespace Operation

/-- The values that an operation is applied to. -/
def operands : Operation → List Value
  | .int _ | .text _ | .bytes _ | .bytearray _ | .range .. | .takeOutput => []
  | .tuple items | .list items | .set items => items
  | .dict items => items.flatMap (·.parts)
  | .slice x y z | .setItem x y z => [x, y, z]
  | .binary _ a b | .inPlace _ a b | .compare _ a b | .equals a b | .contains a b | .getItem a b
  | .delItem a b | .setAttr a _ b => [a, b]
  | .unary _ v | .truth v | .length v | .hash v | .indexValue v | .intValue v | .repr v | .str v
  | .format v _ | .getAttr v _ | .delAttr v _ | .iter v | .next v | .enter v | .exit v | .raise v =>
    [v]
  | .call f a | .callMethod f _ a => f :: a.values
  | .callBuiltin _ a => a.values

/-- A value that the program is handed. -/
def hands (a : Action Value) : Action (List Value) := do return [← a]

/-- An answer that is no value. -/
def answers {α : Type} (a : Action α) : Action (List Value) := do
  let _ ← a
  return []

/-- What an operation does, with the values that it hands to the program. -/
def action : Operation → Action (List Value)
  | .int n => hands (newInt n)
  | .text t => hands (newText t)
  | .bytes data => hands (newBytes data)
  | .bytearray data => hands (newBytearray data)
  | .tuple items => hands (newTuple items)
  | .list items => hands (newList items)
  | .set items => hands (SetMethod.ofValues items)
  | .dict items => hands (DictMethod.ofDisplay items)
  | .range start stop step => hands (Construct.newRange start stop step)
  | .slice start stop step => hands (newSlice start stop step)
  | .unary op v => hands (Action.unary op v)
  | .binary op a b => hands (Action.binary op a b)
  | .inPlace op a b => hands (Action.inPlace op a b)
  | .compare op a b => answers (Action.compare op a b)
  | .equals a b => answers (Action.equals a b)
  | .contains container v => answers (Action.contains container v)
  | .truth v => answers (Action.truth v)
  | .length v => answers (Action.length v)
  | .hash v => answers (Action.hash v)
  | .indexValue v => answers (Action.indexValue v)
  | .intValue v => answers (Action.intValue v)
  | .repr v => answers (Action.repr v)
  | .str v => answers (Action.str v)
  | .format v spec => answers (Action.format v spec)
  | .getItem source key => hands (Action.getItem source key)
  | .setItem target key value => answers (Action.setItem target key value)
  | .delItem target key => answers (Action.delItem target key)
  | .getAttr v name => hands (Action.getAttr v name)
  | .setAttr v name value => answers (Action.setAttr v name value)
  | .delAttr v name => answers (Action.delAttr v name)
  | .call f a => hands (Action.call f a)
  | .callMethod receiver name a => hands (Action.callMethod receiver name a)
  | .callBuiltin name a => hands (Action.callBuiltin name a)
  | .iter v => hands (Action.iter v)
  | .next v => do return (← Action.next v).toList
  | .enter v => hands (Action.enter v)
  | .exit v => answers (Action.exit v)
  | .raise v => do throw (← faultOf v)
  | .takeOutput => answers Action.takeOutput

/-- The operation, with an exception caught. -/
def attempt (o : Operation) : Action (List Value) :=
  tryCatch o.action fun f => do return ((← caught? f).map (·.toValue)).toList

end Operation

/-- A program at one moment. -/
structure Program where
  session : Session
  /-- what the program has been handed -/
  values : List Value

namespace Program

/-- Before the first operation. -/
def start (files : List FileSource) (foldsNewlines : Bool) : Program :=
  ⟨.start files foldsNewlines, []⟩

def heap (p : Program) : Heap := p.session.heap

/-- What the program is after an operation. -/
def perform (p : Program) (o : Operation) : Program :=
  match o.attempt.runOn p.session with
  | (.ok vs, after) => ⟨after, vs ++ p.values⟩
  | (.error _, after) => ⟨after, p.values⟩

theorem perform_of_ok {p : Program} {o : Operation} {vs : List Value} {s : Session}
    (run : o.action.runOn p.session = (.ok vs, s)) : p.perform o = ⟨s, vs ++ p.values⟩ := by
  rw [perform, Operation.attempt, runOn_tryCatch, run]

/-- The program is handed what the iterator yields. -/
theorem perform_next {p : Program} {it : Value} {found : Option Value} {s : Session}
    (run : (next it).runOn p.session = (.ok found, s)) :
    p.perform (.next it) = ⟨s, found.toList ++ p.values⟩ :=
  perform_of_ok (runOn_bind_of_ok run _)

/-- What a program has been handed it keeps. -/
theorem mem_values_perform {p : Program} {v : Value} (o : Operation) (hv : v ∈ p.values) :
    v ∈ (p.perform o).values := by
  unfold perform
  split
  · exact List.mem_append_right _ hv
  · exact hv

theorem session_perform (p : Program) (o : Operation) :
    (p.perform o).session = (o.attempt.runOn p.session).2 := by
  unfold perform
  split <;> next run => rw [run]

/-- What the program is after several operations. -/
def run (p : Program) (os : List Operation) : Program := os.foldl perform p

/-- The values that a program can come by: those it has been handed, the ones
that are always there, and what they are made of or contain. -/
inductive Holds (p : Program) : Value → Prop
  | value : v ∈ p.values → Holds p v
  | shared : v.isShared = true → Holds p v
  | part : Holds p v → u ∈ v.parts → Holds p u
  | item : Holds p (.list r) → v ∈ p.heap.list r → Holds p v
  | key : Holds p (.dict r) → e ∈ (p.heap.dict r).entries → Holds p e.1.value
  | entry : Holds p (.dict r) → e ∈ (p.heap.dict r).entries → Holds p e.2
  | member : Holds p (.set r) → k ∈ (p.heap.set r).keys → Holds p k.value
  | cursor : Holds p (.cursor form r) → v ∈ (p.heap.cursor r).parts → Holds p v

/-- The programs that operations on held values lead to. -/
inductive Reachable : Program → Prop
  | start (files : List FileSource) (foldsNewlines : Bool) : Reachable (start files foldsNewlines)
  | perform {p : Program} (o : Operation) : Reachable p → (∀ v ∈ o.operands, p.Holds v) →
    Reachable (p.perform o)

/-- Operations on what a program has been handed lead on. -/
theorem Reachable.perform_handed {p : Program} (reachable : p.Reachable) (vs : List Value) {o : Operation}
    (handed : ∀ v ∈ o.operands, v ∈ vs ∨ v.isShared = true) (values : p.values = vs) :
    (p.perform o).Reachable :=
  reachable.perform o fun v hv => (handed v hv).elim (values ▸ .value) .shared

/-- Operations on objects that are always there lead on. -/
theorem Reachable.run {p : Program} (h : p.Reachable) {os : List Operation}
    (shared : ∀ o ∈ os, ∀ v ∈ o.operands, v.isShared = true) : (p.run os).Reachable := by
  induction os generalizing p with
  | nil => exact h
  | cons o os ih =>
    obtain ⟨first, rest⟩ := List.forall_mem_cons.1 shared
    exact ih (h.perform o fun v hv => .shared (first v hv)) rest

end Program

-- ---------------------------------------------------------------------------
-- Operations are safe
-- ---------------------------------------------------------------------------

theorem Arguments.has_of_values {w : World} {a : Arguments} (has : w.Has a.values) : w.Has a := by
  obtain ⟨hp, hk⟩ := List.forall_mem_append.1 has
  refine ⟨hp, fun e he => ⟨?_, ?_⟩⟩
  · exact hk _ (List.mem_flatMap.2 ⟨e, he, List.mem_cons_self ..⟩)
  · exact hk _ (List.mem_flatMap.2 ⟨e, he, List.mem_cons_of_mem _ (List.mem_singleton_self _)⟩)

namespace Operation

variable {w : World}

theorem safe_hands {a : Action Value} (ha : w.Safe a) : w.Safe (hands a) :=
  .bind ha fun _ _ _ hv => .pure (List.forall_mem_singleton.2 hv)

theorem safe_answers {α : Type} [Carries α] {a : Action α} (ha : w.Safe a) : w.Safe (answers a) :=
  .bind ha fun _ _ _ _ => .pure has_nil

theorem safe_action {o : Operation} (has : w.Has o.operands) : w.Safe o.action := by
  have one {v : Value} (h : w.Has [v]) : w.Has v := List.forall_mem_singleton.1 h
  cases o with
  | int n => exact safe_hands (.newInt n)
  | text t => exact safe_hands (.newText t)
  | bytes data => exact safe_hands (.newBytes data)
  | bytearray data => exact safe_hands (.newBytearray data)
  | tuple items => exact safe_hands (.newTuple has)
  | list items => exact safe_hands (.newList has)
  | set items => exact safe_hands (SetMethod.safe_ofValues has)
  | dict items =>
    refine safe_hands (DictMethod.safe_ofDisplay fun item hi v hv => ?_)
    exact has v (List.mem_flatMap.2 ⟨item, hi, hv⟩)
  | range start stop step => exact safe_hands (Construct.safe_newRange start stop step)
  | slice x y z =>
    obtain ⟨hx, hy, hz⟩ := has_three has
    exact safe_hands (.newSlice hx hy hz)
  | unary op v => exact safe_hands (.unary op v)
  | binary op a b => exact safe_hands (.binary op (has_two has).1 (has_two has).2)
  | inPlace op a b => exact safe_hands (.inPlace op (has_two has).1 (has_two has).2)
  | compare op a b => exact safe_answers (Keeps.compare op a b).safe
  | equals a b => exact safe_answers (Keeps.equals a b).safe
  | contains container v => exact safe_answers (Keeps.contains container v).safe
  | truth v => exact safe_answers (Keeps.truth v).safe
  | length v => exact safe_answers (Keeps.length v).safe
  | hash v => exact safe_answers (Keeps.hash v).safe
  | indexValue v => exact safe_answers (Keeps.indexValue v).safe
  | intValue v => exact safe_answers (Keeps.intValue v).safe
  | repr v => exact safe_answers (Keeps.repr v).safe
  | str v => exact safe_answers (Keeps.str v).safe
  | format v spec => exact safe_answers (Keeps.format v spec).safe
  | getItem source key => exact safe_hands (.getItem (has_two has).1 (has_two has).2)
  | setItem target key value =>
    obtain ⟨ht, hk, hv⟩ := has_three has
    exact safe_answers (Keeps.setItem ht hk hv).safe
  | delItem target key => exact safe_answers (Keeps.delItem (has_two has).1 (has_two has).2).safe
  | getAttr v name => exact safe_hands (.getAttr (one has) name)
  | setAttr v name value => exact safe_answers (.setAttr v name value)
  | delAttr v name => exact safe_answers (.delAttr v name)
  | call f a =>
    obtain ⟨hf, ha⟩ := List.forall_mem_cons.1 has
    exact safe_hands (.call hf (Arguments.has_of_values ha))
  | callMethod receiver name a =>
    obtain ⟨hr, ha⟩ := List.forall_mem_cons.1 has
    exact safe_hands (.callMethod hr name (Arguments.has_of_values ha))
  | callBuiltin name a => exact safe_hands (.callBuiltin name (Arguments.has_of_values has))
  | iter v => exact safe_hands (.iter (one has))
  | next v =>
    refine .bind (.next (one has)) fun _ found _ hf => .pure fun v hv => ?_
    exact hf v (Option.mem_toList.1 hv)
  | enter v => exact safe_hands (.enter (one has))
  | exit v => exact safe_answers (.exit (one has))
  | raise v => exact .bind (.faultOf (one has)) fun _ _ _ hf => .throw hf
  | takeOutput => exact safe_answers Keeps.takeOutput.safe

theorem safe_attempt {o : Operation} (has : w.Has o.operands) : w.Safe o.attempt := by
  refine .tryCatch (safe_action has) fun w' f _ hf => .bind (.caught? hf) ?_
  intro w'' caught _ hc
  refine .pure fun v hv => ?_
  obtain ⟨e, he, rfl⟩ := Option.map_eq_some_iff.1 (Option.mem_toList.1 hv)
  exact hc e he

end Operation

-- ---------------------------------------------------------------------------
-- Programs stay within a world
-- ---------------------------------------------------------------------------

namespace Program

variable {p : Program} {w : World}

/-- The world models the heap of the program and has what it was handed. -/
structure Modeled (w : World) (p : Program) : Prop where
  models : w.Models p.heap
  values : w.Has p.values

/-- The world has all that the program holds. -/
theorem Modeled.has (modeled : Modeled w p) {v : Value} (h : p.Holds v) : w.Has v := by
  induction h with
  | value h => exact modeled.values _ h
  | shared h => exact w.shared h
  | part _ h ih => exact w.parts ih h
  | item _ h _ => exact modeled.models.list _ _ h
  | key _ h _ => exact (modeled.models.dict _ _ h).1
  | entry _ h _ => exact (modeled.models.dict _ _ h).2
  | member _ h _ => exact Keyed.has_keys (modeled.models.set _) _ h
  | cursor _ h _ => exact modeled.models.cursor _ _ h

/-- An operation on objects of the world leads to a later world. -/
theorem Modeled.perform (modeled : Modeled w p) {o : Operation} (has : w.Has o.operands) :
    ∃ w', w ≤ w' ∧ Modeled w' (p.perform o) := by
  obtain ⟨w', le, models, result⟩ := Operation.safe_attempt has p.session modeled.models
  refine ⟨w', le, ?_⟩
  have values : w'.Has p.values := World.Has.mono modeled.values le
  unfold Program.perform
  match hr : o.attempt.runOn p.session with
  | (.ok vs, after) =>
    rw [hr] at models result
    exact ⟨models, has_append result values⟩
  | (.error e, after) =>
    rw [hr] at models
    exact ⟨models, values⟩

/-- Some world models the program. -/
theorem Reachable.modeled (h : p.Reachable) : ∃ w, Modeled w p := by
  induction h with
  | start => exact ⟨.start, .start, has_nil⟩
  | perform o _ held ih =>
    obtain ⟨w, modeled⟩ := ih
    obtain ⟨w', -, modeled'⟩ := modeled.perform fun v hv => modeled.has (held v hv)
    exact ⟨w', modeled'⟩

end Program

end ObjectModel
