import ObjectModel.Proofs.AllOrNothing
import ObjectModel.Proofs.Dict.Update
import ObjectModel.Proofs.Program.Basic

/-!
# Failed operations

An operation that changes a container and fails leaves every container as it
was, whatever it was given. An update of a dict from an iterable is the
exception: what it read before it failed stays written.

Main statement: `Operation.failure_leaves`.
-/

namespace ObjectModel

open ObjectModel.Action DictMethod

theorem Session.unchanged_tick (s : Session) : s.heap.Unchanged s.tick.heap :=
  Heap.unchanged_of_contents rfl

-- ---------------------------------------------------------------------------
-- Operations that write at once
-- ---------------------------------------------------------------------------

/-- Calls of methods of containers, but for sorting a list, for updating a set
from several sources and for updating a dict from one. -/
inductive Method.WritesAtOnce : Value → Method → Arguments → Prop
  | list {m : Method} : m ≠ .sort → WritesAtOnce (.list r) m a
  | set {m : Method} : (m = .update → a.positional.length ≤ 1) → WritesAtOnce (.set r) m a
  | bytearray : WritesAtOnce (.bytearray r) m a
  | dict {m : Method} : (m = .update → a.positional.length ≠ 1) → WritesAtOnce (.dict r) m a

/-- Operators in place, assigning and deleting items, and such calls. -/
inductive Operation.WritesAtOnce : Operation → Prop
  | inPlace (op : BinaryOp) (a b : Value) : WritesAtOnce (.inPlace op a b)
  | setItem (target key value : Value) : WritesAtOnce (.setItem target key value)
  | delItem (target key : Value) : WritesAtOnce (.delItem target key)
  | call (tag : Tag) : Method.WritesAtOnce v m a → WritesAtOnce (.call (.method tag v m) a)
  | callMethod : Method.ofName? (String.ofList name) = some m → Method.WritesAtOnce v m a →
    WritesAtOnce (.callMethod v name a)

namespace Method.WritesAtOnce

variable {v : Value} {m : Method} {a : Arguments}

theorem allOrNothing (h : WritesAtOnce v m a) (apply : Function.Apply) :
    AllOrNothing (m.call apply v a) := by
  cases h with
  | list hm => exact .callList apply _ hm a
  | set one => exact .callSet _ a one
  | bytearray => exact .callBytearray _ m a
  | dict other => exact .callDict _ a other

/-- A container has no parts that names denote. -/
theorem part?_eq (h : WritesAtOnce v m a) (name : String) : part? v name = pure none := by
  cases h <;> rfl

end Method.WritesAtOnce

namespace Operation

theorem WritesAtOnce.allOrNothing {o : Operation} (h : o.WritesAtOnce) :
    AllOrNothing o.action := by
  have hands {a : Action Value} (ha : AllOrNothing a) : AllOrNothing (hands a) :=
    ha.and_then fun _ => .pure _
  have answers {a : Action Unit} (ha : AllOrNothing a) : AllOrNothing (answers a) :=
    ha.and_then fun _ => .pure _
  cases h with
  | inPlace op a b => exact hands (.inPlace op a b)
  | setItem target key value => exact answers (.setItem target key value)
  | delItem target key => exact answers (.delItem target key)
  | call tag h => exact hands (h.allOrNothing applyKey)
  | @callMethod name m v a named h =>
    refine hands ?_
    cases supported : v.supports m with
    | true =>
      have found : (Method.ofName? (String.ofList name)).filter v.supports = some m := by
        rw [named, Option.filter_some, if_pos supported]
      intro s f t run
      rw [runOn_callMethod (h.part?_eq _) found] at run
      exact s.unchanged_tick.trans (h.allOrNothing applyKey s.tick f t run)
    | false =>
      -- The name is that of a method, so it does not denote the kind of the receiver.
      have missing : Action.getAttr v name = fail (.noAttribute v.kind name) := by
        rw [Action.getAttr, h.part?_eq, named, Option.filter_some, supported]
        have plain : name ≠ "__class__".toList := by
          rintro rfl
          cases named
        exact if_neg plain
      rw [Action.callMethod, missing]
      exact .throw _

end Operation

-- ---------------------------------------------------------------------------
-- Updates of dicts
-- ---------------------------------------------------------------------------

section
variable {r : Ref .dict} {v : Value} {patience index : Nat} {s s' t : Session} {es : Assoc}
  {out : Except Fault Unit} {f : Fault} {α : Type} {a : Action α} {x : Except Fault α}

theorem Action.Quiet.unchanged (ha : Quiet a) (run : a.runOn s = (x, t)) :
    s.heap.Unchanged t.heap :=
  Heap.unchanged_of_contents ((congrArg (·.2.heap.contents) run).symm.trans (ha s))

/-- The pairs that an update reads from an iterator are what it writes. -/
theorem Feeds.writes {it : Value} (feeds : Feeds r it patience index s es out) :
    ∃ (ks : List (Key × Value)) (result : Except Fault Nat) (t : Session),
      (foldFrom (putPair r) patience it index).runOn s = (result, t) ∧
      result.map (fun _ => ()) = out ∧ ks.map (fun e => (e.1.value, e.2)) = es ∧
      (s.heap.putDict r ((s.heap.dict r).insertAll ks)).Unchanged t.heap := by
  induction feeds with
  | @spent index s => exact ⟨[], _, s, rfl, rfl, rfl, s.heap.putDict_unchanged r⟩
  | @stuck s s' f patience index hn =>
    refine ⟨[], _, s', by rw [foldFrom, runOn_bind_of_error hn], rfl, rfl, ?_⟩
    exact (s.heap.putDict_unchanged r).trans ((Quiet.next it).unchanged hn)
  | @last s s' patience index hn =>
    refine ⟨[], .ok index, s', by rw [foldFrom, runOn_bind_of_ok hn]; rfl, rfl, rfl, ?_⟩
    exact (s.heap.putDict_unchanged r).trans ((Quiet.next it).unchanged hn)
  | @refused s s' item index s'' f patience hn hp =>
    have refused : (putPair r index item).runOn s' = (.error f, s'') := runOn_bind_of_error hp _
    refine ⟨[], .error f, s'', ?_, rfl, rfl, ?_⟩
    · rw [foldFrom, runOn_bind_of_ok hn]
      exact runOn_bind_of_error refused _
    · have read := ((Quiet.next it).unchanged hn).trans ((Quiet.pairOf index item).unchanged hp)
      exact (s.heap.putDict_unchanged r).trans read
  | @pair s s' item index s'' k v patience es out hn hp _ ih =>
    obtain ⟨ks, result, t, run, ends, rfl, later⟩ := ih
    refine ⟨(k, v) :: ks, result, t, ?_, ends, rfl, ?_⟩
    · have written : (putPair r index item).runOn s' = (.ok (.yield (index + 1)),
          { s'' with heap := s''.heap.modifyDict r (·.insert k v) }) := runOn_bind_of_ok hp _
      rw [foldFrom, runOn_bind_of_ok hn]
      exact (runOn_bind_of_ok written _).trans run
    · have read := ((Quiet.next it).unchanged hn).trans ((Quiet.pairOf index item).unchanged hp)
      rw [Heap.modifyDict_eq, Heap.dict_putDict, read.dict] at later
      refine .trans (read.putDict r _) (.trans ?_ later)
      exact s''.heap.unchanged_putDict_putDict r _ _

theorem Reads.writes (reads : Reads r v s es out) (plain : ∀ d, v ≠ .dict d) :
    ∃ (ks : List (Key × Value)) (t : Session), (update r v).runOn s = (out, t) ∧
      ks.map (fun e => (e.1.value, e.2)) = es ∧
      (s.heap.putDict r ((s.heap.dict r).insertAll ks)).Unchanged t.heap := by
  have unfolded : update r v = fold (putPair r) v 0 >>= fun _ => pure () := by
    unfold update
    split
    · next d => exact absurd rfl (plain d)
    · rfl
  cases reads with
  | @refused t f hi =>
    have refused : (fold (putPair r) v 0).runOn s = (.error f, t) := runOn_bind_of_error hi _
    refine ⟨[], t, by rw [unfolded, runOn_bind_of_error refused], rfl, ?_⟩
    exact (s.heap.putDict_unchanged r).trans ((Quiet.iter v).unchanged hi)
  | @feeds s' it _ _ hi feeds =>
    obtain ⟨ks, result, t, run, ends, written, later⟩ := feeds.writes
    have folded : (fold (putPair r) v 0).runOn s = (result, t) := by
      rw [fold, runOn_bind_of_ok hi]
      exact (runOn_bind_of_ok (runOn_heap s') _).trans run
    have opened := (Quiet.iter v).unchanged hi
    refine ⟨ks, t, ?_, written, ?_⟩
    · rw [unfolded, runOn_bind, folded, ← ends]
      cases result <;> rfl
    · rw [opened.dict] at later
      exact (opened.putDict r _).trans later

/-- An update that fails fails while it reads its source. -/
theorem reads_of_update_error (run : (update r v).runOn s = (.error f, t)) :
    ∃ ks : List (Key × Value), Reads r v s (ks.map fun e => (e.1.value, e.2)) (.error f) ∧
      (s.heap.putDict r ((s.heap.dict r).insertAll ks)).Unchanged t.heap := by
  have plain (d : Ref .dict) : v ≠ .dict d := by
    rintro rfl
    cases run
  obtain ⟨es, out, reads⟩ := exists_reads r v s
  obtain ⟨ks, t', run', rfl, later⟩ := reads.writes plain
  cases run'.symm.trans run
  exact ⟨ks, reads, later⟩

/-- Of a call that updates a dict, nothing but the update can fail. -/
theorem update_error_of_callMethod {keywords : Table}
    (run : (callMethod (.dict r) "update".toList ⟨[v], keywords⟩).runOn s = (.error f, t)) :
    (update r v).runOn s.tick = (.error f, t) := by
  rw [runOn_callMethod (m := .update) rfl rfl] at run
  have checked : (liftM (Arguments.arity ⟨[v], keywords⟩ "update" 0 1) : Action Unit).runOn
      s.tick = (.ok (), s.tick) := rfl
  match hu : (update r v).runOn s.tick with
  | (.ok (), s') =>
    have updated : ([v].forM (update r)).runOn s.tick = (.ok (), s') := runOn_bind_of_ok hu _
    have called : (DictMethod.call r .update ⟨[v], keywords⟩).runOn s.tick = (.ok .none, _) :=
      (runOn_bind_of_ok checked _).trans (runOn_bind_of_ok updated _)
    cases called.symm.trans run
  | (.error f', s') =>
    have updated : ([v].forM (update r)).runOn s.tick = (.error f', s') := runOn_bind_of_error hu _
    have called : (DictMethod.call r .update ⟨[v], keywords⟩).runOn s.tick = (.error f', s') :=
      (runOn_bind_of_ok checked _).trans (runOn_bind_of_error updated _)
    cases called.symm.trans run
    rfl

end

/-- An operation that writes at once and fails leaves all containers as they
were. An update of a dict that fails, after it has read so many pairs, leaves the
dict with these pairs merged into it in their order, and all else as it was. -/
theorem Operation.failure_leaves :
    (∀ (o : Operation) (s t : Session) (f : Fault), o.WritesAtOnce →
      o.action.runOn s = (.error f, t) → s.heap.Unchanged t.heap) ∧
    ∀ (d : Ref .dict) (source : Value) (keywords : Table) (s t : Session) (f : Fault),
      (Operation.callMethod (.dict d) "update".toList ⟨[source], keywords⟩).action.runOn s =
        (.error f, t) →
      ∃ ks : List (Key × Value),
        Reads d source s.tick (ks.map fun e => (e.1.value, e.2)) (.error f) ∧
        (s.heap.putDict d ((s.heap.dict d).insertAll ks)).Unchanged t.heap := by
  refine ⟨fun o s t f writes run => writes.allOrNothing s f t run, ?_⟩
  intro d source keywords s t f run
  have failed : (Action.callMethod (.dict d) "update".toList ⟨[source], keywords⟩).runOn s =
      (.error f, t) := by
    rw [action, hands, runOn_bind] at run
    split at run
    · cases run
    · next hc =>
      cases run
      exact hc
  obtain ⟨ks, reads, later⟩ := reads_of_update_error (update_error_of_callMethod failed)
  exact ⟨ks, reads, (s.unchanged_tick.putDict d _).trans later⟩

/-- A program with `[1]`, `{}` and `[(1, None), 2]`. -/
def Program.filled : Program :=
  (Program.start [] false).run [.list [.int 0 1], .dict [],
    .list [.tuple 0 [.int 0 1, .none], .int 0 2]]

/-- No index is `None`, and `2` is no pair: the list keeps its item, and the dict
gets the first pair. -/
theorem failure_leaves_filled :
    (∃ f t, (Operation.callMethod (.list ⟨0⟩) "insert".toList ⟨[.none, .none], ∅⟩).action.runOn
        Program.filled.session = (.error f, t) ∧ t.heap.list ⟨0⟩ = [.int 0 1]) ∧
    ∃ f t ks, (Operation.callMethod (.dict ⟨0⟩) "update".toList ⟨[.list ⟨1⟩], ∅⟩).action.runOn
        Program.filled.session = (.error f, t) ∧
      Reads ⟨0⟩ (.list ⟨1⟩) Program.filled.session.tick ks (.error f) ∧
      (t.heap.dict ⟨0⟩).entries.map (fun e => (e.1.value, e.2)) = [(.int 0 1, .none)] := by
  constructor
  · refine ⟨_, _, rfl, ?_⟩
    have unchanged := Operation.failure_leaves.1
      (.callMethod (.list ⟨0⟩) "insert".toList ⟨[.none, .none], ∅⟩) Program.filled.session _ _
      (.callMethod (m := .insert) rfl (.list (by decide))) rfl
    exact unchanged.list ⟨0⟩
  · obtain ⟨ks, reads, later⟩ := Operation.failure_leaves.2 ⟨0⟩ (.list ⟨1⟩) ∅
      Program.filled.session _ _ rfl
    exact ⟨_, _, _, rfl, reads, rfl⟩

end ObjectModel
