import ObjectModel.Proofs.Program.DictOp

/-!
# Dicts in programs

A program may do whatever it likes with dicts, as long as the keys have hash
codes and nest no bound method. Its dicts are then association lists at every
moment, every operation answers as it does on association lists, and what
happens to one dict happens to no other.

Main statement: `Dicts.Follows.refines`.
-/

namespace ObjectModel

open ObjectModel.Action World DictMethod

namespace Dicts

/-- A program beside what its dicts should hold: from any moment at which no key
nests a bound method, through operations on dicts as specified and through any
operations that change no dict. -/
inductive Follows : Program → Dicts → Prop
  | start : p.Reachable → p.heap.assocs.MethodFree → Follows p p.heap.assocs
  | dict (o : DictOp) : Follows p ds → o.Valid p → Follows (p.perform o.operation) (o.spec ds).2
  | other (o : Operation) : Follows p ds → (∀ v ∈ o.operands, p.Holds v) →
    (p.perform o).heap.dicts = p.heap.dicts → Follows (p.perform o) ds

/-- What a program does with dicts is what association lists do. -/
structure Refines (p : Program) (ds : Dicts) : Prop where
  /-- the dicts hold the associations, in their order -/
  contents : p.heap.assocs = ds
  distinct : ∀ t ∈ ds, t.Pairwise fun e f => p.heap.equals e.1 f.1 = false
  /-- the next operation answers as specified, -/
  answers : ∀ o : DictOp, o.Valid p → (o.operation.action.runOn p.session).1 = (o.spec ds).1
  /-- and changes no dict but its target -/
  apart : ∀ o : DictOp, o.Valid p → ∀ r : Ref .dict, r.index < ds.length → o.target? ≠ some r →
    ((p.perform o.operation).heap.dict r).assoc = ds.read r
  found : ∀ r k, p.Holds k → k.Keyable → ∀ e ∈ ds.read r, p.heap.equals e.1 k = true →
    (ds.read r).lookup k = some e.2
  missed : ∀ r k, k.Keyable → (∀ e ∈ ds.read r, p.heap.equals e.1 k = false) →
    (ds.read r).lookup k = none
  /-- what was written last is found, -/
  written : ∀ r k l v, p.Holds k → p.Holds l → k.Keyable → l.Keyable →
    ((ds.read r).write k v).lookup l = if p.heap.equals k l then some v else (ds.read r).lookup l
  /-- what was deleted is not, -/
  deleted : ∀ r k l, p.Holds k → p.Holds l → k.Keyable → l.Keyable →
    ((ds.read r).delete k).lookup l = if p.heap.equals k l then none else (ds.read r).lookup l
  /-- and what is written again goes to the end -/
  moved : ∀ r k v, p.Holds k → k.Keyable →
    ((ds.read r).delete k).write k v = (ds.read r).delete k ++ [(k, v)]
  contains : ∀ r k, p.Holds k → k.Keyable → (Action.contains (.dict r) k).runOn p.session =
    (.ok ((ds.read r).any fun e => p.heap.equals e.1 k), p.session)
  length : ∀ r (n : Int64), n.toInt = (ds.read r).length →
    (Action.length (.dict r)).runOn p.session = (.ok n, p.session)
  /-- every iterable gives some pairs to an update -/
  reads : ∀ (r : Ref .dict) v, (∀ t, v ≠ .dict t) →
    ∃ es out, (UpdateSource.iterable v es out).Honest r p.session.tick

variable {p : Program} {ds : Dicts}

/-- Catching a fault changes no dict. -/
theorem assocs_perform {o : Operation} {x : Except Fault (List Value)}
    (gives : Gives o.action p.session x ds) : (p.perform o).heap.assocs = ds := by
  obtain ⟨s, run, contents⟩ := gives
  rw [Program.heap, Program.session_perform, Operation.attempt, runOn_tryCatch, run]
  cases x with
  | ok vs => exact contents
  | error f =>
    have quiet : Quiet (do return ((← caught? f).map (·.toValue)).toList) :=
      .bind (.caught? f) fun _ => .pure _
    exact (Heap.assocs_of_dicts (quiet.dicts_eq s)).trans contents

theorem Follows.reachable (h : Follows p ds) : p.Reachable := by
  induction h with
  | start reachable _ => exact reachable
  | dict o _ valid ih => exact .perform o.operation ih valid.held
  | other o _ held _ ih => exact .perform o ih held

/-- The dicts are at every moment what they should be. -/
theorem Follows.sound (h : Follows p ds) : p.heap.assocs = ds ∧ ds.MethodFree := by
  induction h with
  | start _ free => exact ⟨rfl, free⟩
  | @dict p ds o before valid ih =>
    obtain ⟨rfl, free⟩ := ih
    obtain ⟨w, modeled⟩ := before.reachable.modeled
    have gives := DictOp.gives ⟨modeled.models, free⟩ (fun v hv => modeled.has (valid.held v hv))
      valid
    exact ⟨assocs_perform gives, DictOp.spec_free free valid.keyable⟩
  | other o _ _ same ih => exact ⟨(Heap.assocs_of_dicts same).trans ih.1, ih.2⟩

theorem Follows.refines (h : Follows p ds) : Refines p ds := by
  obtain ⟨w, modeled⟩ := h.reachable.modeled
  obtain ⟨rfl, free⟩ := h.sound
  have tame : Tame w p.session := ⟨modeled.models, free⟩
  have gives {o : DictOp} (valid : o.Valid p) :=
    DictOp.gives tame (fun v hv => modeled.has (valid.held v hv)) valid
  have has (r : Ref .dict) : w.Has (p.heap.assocs.read r) := by
    rw [Heap.read_assocs]
    exact Keyed.has_assoc (modeled.models.dict r)
  have keyable (r : Ref .dict) : ∀ e ∈ p.heap.assocs.read r, e.1.Keyable := by
    rw [Heap.read_assocs]
    exact Keyed.keyable_assoc (tame.table_free r)
  have distinct (r : Ref .dict) : (p.heap.assocs.read r).Distinct := by
    rw [Heap.read_assocs]
    exact Keyed.distinct_assoc (modeled.models.dict r) (tame.table_free r)
  have equals {k l : Value} (hk : k.Keyable) (hl : l.Keyable) :
      p.heap.equals k l = k.sameKey l := by
    obtain ⟨⟨m, hk⟩, -⟩ := hk
    obtain ⟨⟨n, hl⟩, -⟩ := hl
    exact Heap.equals_eq_sameKey hk hl
  exact {
    contents := rfl
    distinct := fun t ht => by
      obtain ⟨r, rfl⟩ := Dicts.exists_read ht
      refine (distinct r).imp_of_mem fun he hf apart => ?_
      rw [equals (keyable r _ he) (keyable r _ hf), apart]
    answers := fun o valid => by
      obtain ⟨s, run, -⟩ := gives valid
      rw [run]
    apart := fun o valid r hr h => by
      rw [← Heap.read_assocs, assocs_perform (gives valid), DictOp.read_spec hr h]
    found := fun r k hk fits e he h => by
      rw [equals (keyable r e he) fits] at h
      exact Assoc.lookup_of_mem (has r) (modeled.has hk) (distinct r) he h
    missed := fun r k fits h => by
      refine Assoc.lookup_eq_none_iff.2 fun e he => ?_
      rw [← equals (keyable r e he) fits, h e he]
    written := fun r k l v hk hl fk fl => by
      rw [equals fk fl, Assoc.lookup_write (has r) (modeled.has hk) (modeled.has hl)]
    deleted := fun r k l hk hl fk fl => by
      rw [equals fk fl, Assoc.lookup_delete (has r) (modeled.has hk) (modeled.has hl) (distinct r)]
    moved := fun r k v hk _ => Assoc.write_delete (has r) (modeled.has hk) (distinct r) v
    contains := fun r k hk fits => by
      rw [tame.runOn_contains r (modeled.has hk) fits, Assoc.isSome_lookup]
      refine congrArg (fun b => (Except.ok b, p.session)) (Bool.eq_iff_iff.2 ?_)
      rw [List.any_eq_true, List.any_eq_true]
      exact exists_congr fun e => and_congr_right fun he => by rw [equals (keyable r e he) fits]
    length := fun r n h => Tame.runOn_length p.session r h
    reads := fun r v plain => by
      obtain ⟨es, out, reads⟩ := exists_reads r v p.session.tick
      exact ⟨es, out, plain, reads⟩ }

/-- Makes `{1: None, 2: True}`, copies it, deletes `True` and writes it again. -/
def moves : List DictOp :=
  [.display [.pair (.int 0 1) .none, .pair (.int 0 2) (.bool true)], .copy ⟨0⟩,
    .delItem ⟨0⟩ (.bool true), .setItem ⟨0⟩ (.bool true) (.bool false)]

def moved : Program := (Program.start [] false).run (moves.map DictOp.operation)

theorem follows_moved : Follows moved
    [[(.int 0 2, .bool true), (.bool true, .bool false)],
      [(.int 0 1, .none), (.int 0 2, .bool true)]] := by
  have start : Follows (Program.start [] false) [] :=
    .start (.start [] false) fun _ ht => by cases ht
  have shared {p : Program} {v : Value} (h : v.isShared = true) : p.Holds v := .shared h
  have true_fits : ∀ k ∈ [Value.bool true], k.Keyable :=
    List.forall_mem_singleton.2 ⟨⟨_, rfl⟩, rfl⟩
  refine .dict (.setItem ⟨0⟩ (.bool true) (.bool false))
    (.dict (.delItem ⟨0⟩ (.bool true)) (.dict (.copy ⟨0⟩) (.dict
      (.display [.pair (.int 0 1) .none, .pair (.int 0 2) (.bool true)]) start ?_) ?_) ?_) ?_
  · refine ⟨fun v hv => shared ?_, ?_, fun _ _ _ h => by cases h⟩
    · revert v
      decide
    · exact List.forall_mem_cons.2 ⟨⟨⟨_, rfl⟩, rfl⟩, List.forall_mem_singleton.2 ⟨⟨_, rfl⟩, rfl⟩⟩
  · refine ⟨fun v hv => ?_, fun _ hk => (by cases hk), fun _ _ _ h => by cases h⟩
    exact List.mem_singleton.1 hv ▸ .value (List.mem_cons_self ..)
  · refine ⟨List.forall_mem_cons.2 ⟨.value ?_, ?_⟩, true_fits, fun _ _ _ h => by cases h⟩
    · exact List.mem_cons_of_mem _ (List.mem_cons_self ..)
    · exact List.forall_mem_singleton.2 (shared rfl)
  · refine ⟨List.forall_mem_cons.2 ⟨.value ?_, ?_⟩, true_fits, fun _ _ _ h => by cases h⟩
    · exact List.mem_cons_of_mem _ (List.mem_cons_self ..)
    · exact List.forall_mem_cons.2 ⟨shared rfl, List.forall_mem_singleton.2 (shared rfl)⟩

theorem refines_of_moved :
    moved.heap.assocs = [[(.int 0 2, .bool true), (.bool true, .bool false)],
      [(.int 0 1, .none), (.int 0 2, .bool true)]] ∧
      (Action.contains (.dict ⟨1⟩) (.bool true)).runOn moved.session = (.ok true, moved.session) ∧
      (Action.length (.dict ⟨0⟩)).runOn moved.session = (.ok 2, moved.session) := by
  have refines := follows_moved.refines
  exact ⟨refines.contents, refines.contains ⟨1⟩ (.bool true) (.shared rfl) ⟨⟨_, rfl⟩, rfl⟩,
    refines.length ⟨0⟩ 2 rfl⟩

end Dicts

end ObjectModel
