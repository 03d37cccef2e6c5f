import ObjectModel.Proofs.Dict.Operations
import ObjectModel.Proofs.Program.Basic

/-!
# Operations of programs on dicts

What a program can do with dicts, and what that does to association lists. The
keys have hash codes and nest no bound method.

Main statements: `DictOp.gives` says that each operation does what its
specification says, and `DictOp.read_spec` that it changes no dict but its
target.
-/

namespace ObjectModel

open ObjectModel.Action World DictMethod

/-- An operation on dicts. -/
inductive DictOp where
  | display (items : List DisplayItem)
  | setItem (r : Ref .dict) (k v : Value)
  | delItem (r : Ref .dict) (k : Value)
  | getItem (r : Ref .dict) (k : Value)
  | get (r : Ref .dict) (k : Value) (fallback : Option Value)
  | pop (r : Ref .dict) (k : Value) (fallback : Option Value)
  | setDefault (r : Ref .dict) (k : Value) (fallback : Option Value)
  | update (r : Ref .dict) (source : UpdateSource) (keywords : Table)
  | clear (r : Ref .dict)
  | copy (r : Ref .dict)
  | merge (r : Ref .dict) (other : Value)

namespace DictOp

/-- How a program does it. -/
def operation : DictOp → Operation
  | .display items => .dict items
  | .setItem r k v => .setItem (.dict r) k v
  | .delItem r k => .delItem (.dict r) k
  | .getItem r k => .getItem (.dict r) k
  | .get r k fallback => .callMethod (.dict r) "get".toList ⟨k :: fallback.toList, ∅⟩
  | .pop r k fallback => .callMethod (.dict r) "pop".toList ⟨k :: fallback.toList, ∅⟩
  | .setDefault r k fallback => .callMethod (.dict r) "setdefault".toList ⟨k :: fallback.toList, ∅⟩
  | .update r source keywords =>
    .callMethod (.dict r) "update".toList ⟨source.arguments, keywords⟩
  | .clear r => .callMethod (.dict r) "clear".toList ⟨[], ∅⟩
  | .copy r => .callMethod (.dict r) "copy".toList ⟨[], ∅⟩
  | .merge r other => .binary .or (.dict r) other

/-- What it answers on association lists, and what it makes of them. -/
def spec (ds : Dicts) : DictOp → Except Fault (List Value) × Dicts
  | .display items =>
    ((ds.display [] items).map fun _ => [.dict ⟨ds.length⟩],
      ds ++ (ds.display [] items).toOption.toList)
  | .setItem r k v => (.ok [], ds.change r (·.write k v))
  | .delItem r k => (((ds.read r).getOr k none).map fun _ => [], ds.change r (·.delete k))
  | .getItem r k => (((ds.read r).getOr k none).map ([·]), ds)
  | .get r k fallback => (.ok [((ds.read r).lookup k).getD (fallback.getD .none)], ds)
  | .pop r k fallback => (((ds.read r).getOr k fallback).map ([·]), ds.change r (·.delete k))
  | .setDefault r k fallback =>
    (.ok [((ds.read r).lookup k).getD (fallback.getD .none)],
      ds.change r (·.writeNew k (fallback.getD .none)))
  | .update r source keywords =>
    (source.ends.map fun _ => [.none], ds.change r fun t =>
      (t.writeAll (source.pairs ds)).writeAll
        (source.ends.toOption.elim [] fun _ => keywords.assoc))
  | .clear r => (.ok [.none], ds.change r fun _ => [])
  | .copy r => (.ok [.dict ⟨ds.length⟩], ds ++ [ds.read r])
  | .merge r (.dict r') => (.ok [.dict ⟨ds.length⟩], ds ++ [(ds.read r).writeAll (ds.read r')])
  | .merge _ other => (.error (.cause (.operands "|" .dict other.kind)), ds)

/-- The keys that it brings along. -/
def keys : DictOp → List Value
  | .display items => items.flatMap DisplayItem.keys
  | .setItem _ k _ | .delItem _ k | .getItem _ k | .get _ k _ | .pop _ k _ | .setDefault _ k _ =>
    [k]
  | .update _ source keywords => (source.pairs [] ++ keywords.assoc).map (·.1)
  | .clear _ | .copy _ | .merge .. => []

/-- The dict that it may change. -/
def target? : DictOp → Option (Ref .dict)
  | .setItem r .. | .delItem r _ | .pop r .. | .setDefault r .. | .update r .. | .clear r => some r
  | .display _ | .getItem .. | .get .. | .copy _ | .merge .. => none

/-- The program holds what it is applied to, the keys can be keys, and an
update's source gives the pairs that are stated. -/
structure Valid (o : DictOp) (p : Program) : Prop where
  held : ∀ v ∈ o.operation.operands, p.Holds v
  keyable : ∀ k ∈ o.keys, k.Keyable
  honest : ∀ r source keywords, o = .update r source keywords → source.Honest r p.session.tick

-- ---------------------------------------------------------------------------
-- One operation
-- ---------------------------------------------------------------------------

variable {o : DictOp} {p : Program} {w : World} {s : Session} {ds : Dicts}

theorem has_receiver {r : Ref .dict} {k : Value} {vs : List Value} {t : Table}
    (has : w.Has (.dict r :: Arguments.values ⟨k :: vs, t⟩)) : w.Has (Value.dict r) ∧ w.Has k := by
  obtain ⟨hr, ha⟩ := List.forall_mem_cons.1 has
  exact ⟨hr, ha k (List.mem_cons_self ..)⟩

theorem UpdateSource.pairs_free {source : UpdateSource} (free : ds.MethodFree)
    (h : (source.pairs []).MethodFree) : (source.pairs ds).MethodFree := by
  cases source with
  | nothing => exact h
  | dict r => exact free.read r
  | iterable v es out => exact h

/-- An operation does what the specification says. -/
theorem gives (tame : Tame w p.session) (has : w.Has o.operation.operands) (valid : o.Valid p) :
    Gives o.operation.action p.session (o.spec p.heap.assocs).1 (o.spec p.heap.assocs).2 := by
  have first {k : Value} {ks : List Value} (h : o.keys = k :: ks) : k.Keyable :=
    valid.keyable k (h ▸ List.mem_cons_self ..)
  cases o with
  | display items =>
    have parts : w.Has items := fun item hi v hv => has v (List.mem_flatMap.2 ⟨item, hi, hv⟩)
    exact (tame.gives_ofDisplay parts valid.keyable).map_map
  | setItem r k v =>
    obtain ⟨hr, hk, -⟩ := has_three has
    exact (tame.gives_setItem hr hk (first rfl) v).map
  | delItem r k =>
    obtain ⟨hr, hk⟩ := has_two has
    exact (tame.gives_delItem hr hk (first rfl)).map_map
  | getItem r k =>
    obtain ⟨-, hk⟩ := has_two has
    exact (tame.gives_getItem r hk (first rfl)).map
  | get r k fallback =>
    obtain ⟨hr, hk⟩ := has_receiver has
    have called : Gives (callMethod (.dict r) "get".toList ⟨k :: fallback.toList, ∅⟩) p.session
        (.ok (((p.heap.assocs.read r).lookup k).getD (fallback.getD .none))) p.heap.assocs := by
      refine tame.gives_callMethod hr "get" .get rfl rfl fun w' le later => ?_
      have found := later.gives_get r (hk.mono le) (first rfl) fallback
      cases fallback <;> exact found
    exact called.map
  | pop r k fallback =>
    obtain ⟨hr, hk⟩ := has_receiver has
    refine (tame.gives_callMethod hr "pop" .pop rfl rfl fun w' le later => ?_).map
    have popped := later.gives_pop (hr.mono le) (hk.mono le) (first rfl) fallback
    cases fallback <;> exact popped
  | setDefault r k fallback =>
    obtain ⟨hr, hk⟩ := has_receiver has
    have called : Gives (callMethod (.dict r) "setdefault".toList ⟨k :: fallback.toList, ∅⟩)
        p.session (.ok (((p.heap.assocs.read r).lookup k).getD (fallback.getD .none)))
        (p.heap.assocs.change r (·.writeNew k (fallback.getD .none))) := by
      refine tame.gives_callMethod hr "setdefault" .setDefault rfl rfl fun w' le later => ?_
      have found := later.gives_setDefault (hr.mono le) (hk.mono le) (first rfl)
        (fallback.getD .none)
      cases fallback <;> exact found
    exact called.map
  | update r source keywords =>
    obtain ⟨hr, ha⟩ := List.forall_mem_cons.1 has
    obtain ⟨hs, hk⟩ := Arguments.has_of_values ha
    have free : (source.pairs [] ++ keywords.assoc).MethodFree := fun e he =>
      (valid.keyable e.1 (List.mem_map_of_mem he)).2
    obtain ⟨hes, hfree⟩ := List.forall_mem_append.1 free
    refine (tame.gives_callMethod hr "update" .update rfl rfl fun w' le later => ?_).map_map
    exact later.gives_update (hr.mono le) (valid.honest r source keywords rfl)
      (World.Has.mono (x := source.arguments) hs le) (UpdateSource.pairs_free later.free hes)
      (World.Has.mono (x := keywords) hk le) hfree
  | clear r =>
    obtain ⟨hr, -⟩ := List.forall_mem_cons.1 has
    have called := tame.gives_callMethod hr "clear" .clear rfl rfl fun _ le later =>
      later.gives_clear (hr.mono le)
    exact called.map
  | copy r =>
    obtain ⟨hr, -⟩ := List.forall_mem_cons.1 has
    have called := tame.gives_callMethod hr "copy" .copy rfl rfl fun _ _ _ =>
      Tame.gives_copy p.session.tick r
    exact called.map
  | merge r other =>
    cases other with
    | dict r' => exact (tame.gives_merge r r').map
    | _ => exact (Tame.gives_operands _ r fun _ h => by cases h).map

theorem display_free {t u : Assoc} {items : List DisplayItem} (free : ds.MethodFree)
    (ht : t.MethodFree) (keyable : ∀ k ∈ items.flatMap DisplayItem.keys, k.Keyable)
    (h : ds.display t items = .ok u) : u.MethodFree := by
  induction items generalizing t with
  | nil => cases h; exact ht
  | cons item items ih =>
    rw [List.flatMap_cons, List.forall_mem_append] at keyable
    cases item with
    | pair k v => exact ih (ht.write (keyable.1 k (List.mem_singleton_self k)).2) keyable.2 h
    | unpack source =>
      cases source with
      | dict r => exact ih (ht.writeAll (free.read r)) keyable.2 h
      | _ => cases h

theorem spec_free (free : ds.MethodFree) (keyable : ∀ k ∈ o.keys, k.Keyable) :
    (o.spec ds).2.MethodFree := by
  have first {k : Value} {ks : List Value} (h : o.keys = k :: ks) : k.methodFree = true :=
    (keyable k (h ▸ List.mem_cons_self ..)).2
  have added {t : Assoc} (ht : t.MethodFree) : Dicts.MethodFree (ds ++ [t]) :=
    List.forall_mem_append.2 ⟨free, List.forall_mem_singleton.2 ht⟩
  cases o with
  | display items =>
    refine List.forall_mem_append.2 ⟨free, fun t ht => ?_⟩
    cases made : ds.display [] items with
    | ok u =>
      simp only [made, Except.toOption, Option.toList, List.mem_singleton] at ht
      exact ht ▸ display_free free (fun _ he => by cases he) keyable made
    | error f => simp [made, Except.toOption] at ht
  | setItem r k v => exact free.change fun t ht => ht.write (first rfl)
  | delItem r k => exact free.change fun t ht => ht.delete
  | getItem r k => exact free
  | get r k fallback => exact free
  | pop r k fallback => exact free.change fun t ht => ht.delete
  | setDefault r k fallback => exact free.change fun t ht => ht.writeNew (first rfl)
  | update r source keywords =>
    have brought : (source.pairs [] ++ keywords.assoc).MethodFree := fun e he =>
      (keyable e.1 (List.mem_map_of_mem he)).2
    obtain ⟨hes, hfree⟩ := List.forall_mem_append.1 brought
    refine free.change fun t ht => (ht.writeAll (UpdateSource.pairs_free free hes)).writeAll ?_
    cases source.ends with
    | ok => exact hfree
    | error f => exact fun _ he => by cases he
  | clear r => exact free.change fun _ _ _ he => by cases he
  | copy r => exact added (free.read r)
  | merge r other =>
    cases other with
    | dict r' => exact added ((free.read r).writeAll (free.read r'))
    | _ => exact free

/-- It changes no dict but its target. -/
theorem read_spec {r : Ref .dict} (hr : r.index < ds.length) (h : o.target? ≠ some r) :
    (o.spec ds).2.read r = ds.read r := by
  have added (ts : Dicts) : Dicts.read (ds ++ ts) r = ds.read r := by
    rw [Dicts.read, List.getElem?_append_left hr, Dicts.read]
  have apart {r' : Ref .dict} (h : some r' ≠ some r) : r ≠ r' := fun hr => h (hr ▸ rfl)
  cases o with
  | display items => exact added _
  | setItem r' k v => exact Dicts.read_change_of_ne (apart h)
  | delItem r' k => exact Dicts.read_change_of_ne (apart h)
  | getItem r' k => rfl
  | get r' k fallback => rfl
  | pop r' k fallback => exact Dicts.read_change_of_ne (apart h)
  | setDefault r' k fallback => exact Dicts.read_change_of_ne (apart h)
  | update r' source keywords => exact Dicts.read_change_of_ne (apart h)
  | clear r' => exact Dicts.read_change_of_ne (apart h)
  | copy r' => exact added _
  | merge r' other =>
    cases other with
    | dict r'' => exact added _
    | _ => rfl

end DictOp

end ObjectModel
