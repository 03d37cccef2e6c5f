import ObjectModel.Proofs.Content
import ObjectModel.Proofs.Program.Set

/-!
# Operators in place

Lists, sets and bytearrays have operators that change them where they are. What
such an operator leaves in its left operand is what the operator otherwise makes
a new object of, whichever the right operand is: it may be the left one itself.
All other operators in place are the operators.

Main statement: `Reachable.inPlace_agrees`.
-/

namespace ObjectModel

open ObjectModel.Action

/-- The operators that change their left operand in place. -/
def BinaryOp.changes : BinaryOp → Value → Bool
  | .add, .list _ | .mul, .list _ | .add, .bytearray _ => true
  | .or, .set _ | .and, .set _ | .sub, .set _ | .xor, .set _ => true
  | _, _ => false

/-- Between the sessions just one object has changed, and it holds this now. -/
structure Session.Replaces (s t : Session) (v : Value) (c : Content) : Prop where
  content_eq : t.heap.content v = c
  others : ∀ u : Value, u.is v = false → t.heap.content u = s.heap.content u

/-- In place the operator ends with its left operand, which is all that it has
changed and which holds what the result of the operator holds. -/
def BinaryOp.AgreesInPlace (op : BinaryOp) (a b : Value) (s : Session) : Prop :=
  ∀ v t, (binary op a b).runOn s = (.ok v, t) →
    ∃ u, (inPlace op a b).runOn s = (.ok a, u) ∧ s.Replaces u a (t.heap.content v)

namespace Action

variable {s : Session}

theorem runOn_writeList (r : Ref .list) (items : List Value) (s : Session) :
    ∃ u, (writeList r items).runOn s = (.ok (), u) ∧ s.Replaces u (.list r) (.list items) :=
  ⟨_, rfl, congrArg Content.list (Heap.list_putList ..),
    fun _ other => Heap.content_putList other _⟩

theorem runOn_writeSet (r : Ref .set) (keys : KeySet) (s : Session) :
    ∃ u, (writeSet r keys).runOn s = (.ok (), u) ∧ s.Replaces u (.set r) (.set keys.keys) :=
  ⟨_, rfl, congrArg (fun s : KeySet => Content.set s.keys) (Heap.set_putSet ..),
    fun _ other => Heap.content_putSet other _⟩

/-- Adding to a list is writing all of it. -/
theorem runOn_appendList (r : Ref .list) (extra : List Value) (s : Session) :
    (appendList r extra).runOn s = (writeList r (s.heap.list r ++ extra)).runOn s :=
  congrArg (fun h => (Except.ok (), { s with heap := h })) (Heap.appendList_eq ..)

theorem runOn_appendBytearray (r : Ref .bytearray) (extra : List UInt8) (s : Session) :
    ∃ u, (appendBytearray r extra).runOn s = (.ok (), u) ∧
      s.Replaces u (.bytearray r) (.bytearray (s.heap.bytearray r ++ extra)) := by
  have written : (appendBytearray r extra).runOn s =
      (.ok (), { s with heap := s.heap.putBytearray r (s.heap.bytearray r ++ extra) }) :=
    congrArg (fun h => (Except.ok (), { s with heap := h })) (Heap.appendBytearray_eq ..)
  exact ⟨_, written, congrArg Content.bytearray (Heap.bytearray_putBytearray ..),
    fun _ other => Heap.content_putBytearray other _⟩

theorem runOn_newBytearray (data : List UInt8) (s : Session) :
    ∃ t, (newBytearray data).runOn s = (.ok (.bytearray ⟨s.heap.bytearrays.size⟩), t) ∧
      t.heap.bytearray ⟨s.heap.bytearrays.size⟩ = data :=
  ⟨_, rfl, congrArg Array.toList (Store.get_push_size ..)⟩

/-- The bytes of an operand are read only. -/
theorem of_runOn_byteOperand {onto : Kind} {v : Value} {data : List UInt8} {s t : Session}
    (run : (byteOperand onto v).runOn s = (.ok data, t)) : s = t := by
  rw [byteOperand, runOn_bind_of_ok (runOn_heap s)] at run
  split at run <;> cases run
  rfl

end Action

namespace BinaryOp

/-- `a += b` for lists, where `b` is any list. -/
theorem agrees_list_add (r : Ref .list) (b : Value) (s : Session) :
    AgreesInPlace .add (.list r) b s := by
  intro v t run
  cases b with
  | list q =>
    obtain ⟨t', made, holds, -⟩ := runOn_newList (s.heap.list r ++ s.heap.list q) s
    cases run.symm.trans made
    obtain ⟨u, written, replaced⟩ := runOn_writeList r (s.heap.list r ++ s.heap.list q) s
    have extended : (extendList r (.list q)).runOn s = (.ok (), u) :=
      (runOn_appendList r (s.heap.list q) s).trans written
    refine ⟨u, runOn_bind_of_ok extended _, ?_⟩
    rwa [Heap.content, holds]
  | _ => cases run

/-- `a *= n` for lists. -/
theorem agrees_list_mul (r : Ref .list) (b : Value) (s : Session) :
    AgreesInPlace .mul (.list r) b s := by
  intro v t run
  obtain ⟨items, s', read, run⟩ := exists_of_runOn_bind run
  cases read
  obtain ⟨n, s', count, run⟩ := exists_of_runOn_bind run
  obtain ⟨times, rfl⟩ := of_runOn_lift count
  obtain ⟨t', made, holds, -⟩ := runOn_newList (repeatItems n (s.heap.list r)) s
  cases run.symm.trans made
  obtain ⟨u, written, replaced⟩ := runOn_writeList r (repeatItems n (s.heap.list r)) s
  refine ⟨u, ?_, ?_⟩
  · show (inPlace .mul (.list r) b).runOn s = _
    rw [inPlace, runOn_bind_of_ok (runOn_readList r s), runOn_bind_of_ok (runOn_lift_of_ok times s),
      runOn_bind_of_ok written]
    rfl
  · rwa [Heap.content, holds]

/-- `a += b` for bytearrays, where `b` holds bytes. -/
theorem agrees_bytearray_add (r : Ref .bytearray) (b : Value) (s : Session) :
    AgreesInPlace .add (.bytearray r) b s := by
  intro v t run
  obtain ⟨data, s', read, run⟩ := exists_of_runOn_bind
    (show (readBytearray r >>= fun data => byteOperand .bytearray b >>= fun extra =>
      newBytearray (data ++ extra)).runOn s = (.ok v, t) from run)
  cases read
  obtain ⟨extra, s', operand, run⟩ := exists_of_runOn_bind run
  cases of_runOn_byteOperand operand
  obtain ⟨t', made, holds⟩ := runOn_newBytearray (s.heap.bytearray r ++ extra) s
  cases run.symm.trans made
  obtain ⟨u, written, replaced⟩ := runOn_appendBytearray r extra s
  refine ⟨u, ?_, ?_⟩
  · rw [inPlace, runOn_bind_of_ok operand, runOn_bind_of_ok written]
    rfl
  · rwa [Heap.content, holds]

theorem agrees_set {op : BinaryOp} (r : Ref .set) (b : Value) (s : Session)
    {f : KeySet → KeySet → KeySet} (hf : op.onSets? = some f) : op.AgreesInPlace (.set r) b s := by
  intro v t run
  obtain ⟨g, hg, keys⟩ := exists_inSets hf
  cases b with
  | set q =>
    obtain ⟨t', made, holds, -⟩ := runOn_binary hf r q s
    cases run.symm.trans made
    obtain ⟨u, written, replaced⟩ := runOn_writeSet r (g (s.heap.set r) (s.heap.set q)) s
    have operand : (setOperand (inPlaceSymbol op) (.set q)).runOn s = (.ok (s.heap.set q), s) := rfl
    refine ⟨u, ?_, ?_⟩
    · simp only [inPlace, hg]
      rw [runOn_bind_of_ok operand, runOn_bind_of_ok (runOn_readSet r s), runOn_bind_of_ok written]
      rfl
    · rwa [Heap.content, holds, ← keys]
  | _ => simp only [binary, hf] at run; cases run

theorem agreesInPlace {op : BinaryOp} {a : Value} (changes : op.changes a = true) (b : Value)
    (s : Session) : op.AgreesInPlace a b s := by
  cases a with
  | list r =>
    cases op with
    | add => exact agrees_list_add r b s
    | mul => exact agrees_list_mul r b s
    | _ => cases changes
  | bytearray r =>
    cases op with
    | add => exact agrees_bytearray_add r b s
    | _ => cases changes
  | set r =>
    cases op with
    | or | and | sub | xor => exact agrees_set r b s rfl
    | _ => cases changes
  | _ => cases op <;> cases changes

/-- The other operators have no form of their own in place. -/
theorem inPlace_eq_binary {op : BinaryOp} {a : Value} (changes : op.changes a = false) (b : Value) :
    inPlace op a b = binary op a b := by
  cases a with
  | list r | bytearray r | set r => cases op <;> first | rfl | cases changes
  | _ => rfl

end BinaryOp

theorem World.Models.stores {w : World} {h : Heap} (models : w.Models h) {v : Value}
    (has : w.Has v) : h.Stores v := fun shelf _ stored =>
  models.extent shelf ▸ w.index_lt has stored

namespace Program

variable {p : Program}

/-- In place, `+=` and `*=` of lists, the set operators and `+=` of bytearrays
succeed if the operator does, for any operand, the left one included. They end with
the left operand, which then holds what the result of the operator would hold, and
every other object holds what it held. All other operators do in place what they
do otherwise, and every object then holds what it held. -/
theorem Reachable.inPlace_agrees (reachable : p.Reachable) (op : BinaryOp) (a b : Value) :
    (op.changes a = true → ∀ v t, (binary op a b).runOn p.session = (.ok v, t) →
      ∃ u, (inPlace op a b).runOn p.session = (.ok a, u) ∧
        u.heap.content a = t.heap.content v ∧
        ∀ x : Value, x.is a = false → u.heap.content x = p.heap.content x) ∧
    (op.changes a = false → ∀ result t, (binary op a b).runOn p.session = (result, t) →
      (inPlace op a b).runOn p.session = (result, t) ∧
        ∀ x, p.Holds x → t.heap.content x = p.heap.content x) := by
  obtain ⟨w, modeled⟩ := reachable.modeled
  constructor
  · intro changes v t run
    obtain ⟨u, run', replaced⟩ := BinaryOp.agreesInPlace changes b p.session v t run
    exact ⟨u, run', replaced.content_eq, replaced.others⟩
  · intro changes result t run
    have adds := (Builds.binary op a b).adds p.session
    rw [run] at adds
    refine ⟨BinaryOp.inPlace_eq_binary changes b ▸ run, fun x held => ?_⟩
    exact adds.content_eq (modeled.models.stores (modeled.has held))

/-- `s ^= s` empties `s`, and `True | False` leaves it. -/
theorem inPlace_agrees_of_sets :
    (∃ u, (inPlace .xor (.set ⟨0⟩) (.set ⟨0⟩)).runOn sets.session = (.ok (.set ⟨0⟩), u) ∧
      u.heap.content (.set ⟨0⟩) = .set [] ∧
      u.heap.content (.set ⟨1⟩) = sets.heap.content (.set ⟨1⟩)) ∧
    (inPlace .or (.bool true) (.bool false)).runOn sets.session =
      (.ok (.bool true), sets.session) := by
  obtain ⟨replaces, -⟩ := reachable_sets.inPlace_agrees .xor (.set ⟨0⟩) (.set ⟨0⟩)
  obtain ⟨-, alike⟩ := reachable_sets.inPlace_agrees .or (.bool true) (.bool false)
  obtain ⟨u, run, holds, others⟩ := replaces rfl _ _ rfl
  exact ⟨⟨u, run, holds, others (.set ⟨1⟩) rfl⟩, (alike rfl _ _ rfl).1⟩

end Program

end ObjectModel
