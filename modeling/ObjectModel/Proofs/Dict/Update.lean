import ObjectModel.Proofs.Dict.Contents

/-!
# Updating a dict from an iterable

An update reads its source pair by pair and writes each pair before it asks for
the next one. So a source that reads the dict itself sees what has been written,
and the pairs before a failure stay written.

Main statements: `exists_reads` says that every update reads some pairs, and
`Reads.runs` that it writes them in their order and nothing else.
-/

namespace ObjectModel

open ObjectModel.Action World DictMethod

/-- The pairs that an update reads from an iterator, and how reading ends. -/
inductive Feeds (r : Ref .dict) (it : Value) :
    Nat → Nat → Session → Assoc → Except Fault Unit → Prop
  | spent : Feeds r it 0 index s [] (.error .unbounded)
  | stuck : (next it).runOn s = (.error f, s') → Feeds r it (patience + 1) index s [] (.error f)
  | last : (next it).runOn s = (.ok none, s') → Feeds r it (patience + 1) index s [] (.ok ())
  | refused : (next it).runOn s = (.ok (some item), s') →
    (pairOf index item).runOn s' = (.error f, s'') →
    Feeds r it (patience + 1) index s [] (.error f)
  | pair : (next it).runOn s = (.ok (some item), s') →
    (pairOf index item).runOn s' = (.ok (k, v), s'') →
    Feeds r it patience (index + 1)
      { s'' with heap := s''.heap.modifyDict r (·.insert k v) } es out →
    Feeds r it (patience + 1) index s ((k.value, v) :: es) out

/-- The pairs that an update reads from an iterable, and how reading ends. -/
inductive Reads (r : Ref .dict) (v : Value) (s : Session) : Assoc → Except Fault Unit → Prop
  | refused : (iter v).runOn s = (.error f, s') → Reads r v s [] (.error f)
  | feeds : (iter v).runOn s = (.ok it, s') → Feeds r it (s'.heap.patience it) 0 s' es out →
    Reads r v s es out

variable {r : Ref .dict} {it v : Value} {patience index : Nat} {s s' : Session} {es : Assoc}
  {out : Except Fault Unit}

theorem exists_feeds (r : Ref .dict) (it : Value) (patience index : Nat) (s : Session) :
    ∃ es out, Feeds r it patience index s es out := by
  induction patience generalizing index s with
  | zero => exact ⟨_, _, .spent⟩
  | succ patience ih =>
    match hn : (next it).runOn s with
    | (.error f, s') => exact ⟨_, _, .stuck hn⟩
    | (.ok none, s') => exact ⟨_, _, .last hn⟩
    | (.ok (some item), s') =>
      match hp : (pairOf index item).runOn s' with
      | (.error f, s'') => exact ⟨_, _, .refused hn hp⟩
      | (.ok (k, v), s'') =>
        obtain ⟨es, out, rest⟩ := ih (index + 1)
          { s'' with heap := s''.heap.modifyDict r (·.insert k v) }
        exact ⟨_, _, .pair hn hp rest⟩

theorem exists_reads (r : Ref .dict) (v : Value) (s : Session) : ∃ es out, Reads r v s es out := by
  match hi : (iter v).runOn s with
  | (.error f, s') => exact ⟨_, _, .refused hi⟩
  | (.ok it, s') =>
    obtain ⟨es, out, feeds⟩ := exists_feeds r it (s'.heap.patience it) 0 s'
    exact ⟨_, _, .feeds hi feeds⟩

section
variable {α : Type} {a : Action α} {x : Except Fault α}

theorem Action.Quiet.assocs_eq (ha : Quiet a) (h : a.runOn s = (x, s')) :
    s'.heap.assocs = s.heap.assocs := by
  have same := ha.dicts_eq s
  rw [h] at same
  exact Heap.assocs_of_dicts same

theorem World.Safe.later [Carries α] {w : World} (ha : w.Safe a) (models : w.Models s.heap)
    (h : a.runOn s = (x, s')) : ∃ w', w ≤ w' ∧ w'.Models s'.heap ∧ w'.Has x := by
  have later := ha s models
  rw [h] at later
  exact later

end

/-- One pair is written as it is read. -/
theorem assocs_insert {w : World} {k : Key} (models : w.Models s.heap) (hr : w.Has (Value.dict r))
    (free : s.heap.assocs.MethodFree) (hk : w.Has k) (v : Value) :
    (s.heap.modifyDict r (·.insert k v)).assocs = s.heap.assocs.change r (·.write k.value v) := by
  refine Heap.assocs_modifyDict (models.index_lt hr rfl) ?_
  exact Keyed.assoc_insert (models.dict r) (Heap.read_assocs s.heap r ▸ free.read r) hk v

theorem Feeds.runs {w : World} (h : Feeds r it patience index s es out)
    (models : w.Models s.heap) (hr : w.Has (Value.dict r)) (hit : w.Has it)
    (free : s.heap.assocs.MethodFree) (hes : es.MethodFree) :
    ∃ result s' w', (foldFrom (putPair r) patience it index).runOn s = (result, s') ∧
      result.map (fun _ => ()) = out ∧ w ≤ w' ∧ w'.Models s'.heap ∧
      s'.heap.assocs = s.heap.assocs.change r (·.writeAll es) := by
  induction h generalizing w with
  | @spent index s => exact ⟨_, s, w, rfl, rfl, World.le_refl w, models, Dicts.change_id.symm⟩
  | @stuck s s' f patience index hn =>
    obtain ⟨w', le, models', -⟩ := (Safe.next hit).later models hn
    refine ⟨_, s', w', by rw [foldFrom, runOn_bind, hn], rfl, le, models', ?_⟩
    exact ((Quiet.next it).assocs_eq hn).trans Dicts.change_id.symm
  | @last s s' patience index hn =>
    obtain ⟨w', le, models', -⟩ := (Safe.next hit).later models hn
    refine ⟨.ok index, s', w', by rw [foldFrom, runOn_bind, hn]; rfl, rfl, le, models', ?_⟩
    exact ((Quiet.next it).assocs_eq hn).trans Dicts.change_id.symm
  | @refused s s' item index s'' f patience hn hp =>
    obtain ⟨w', le, models', has⟩ := (Safe.next hit).later models hn
    obtain ⟨w'', le', models'', -⟩ := (safe_pairOf index (has item rfl)).later models' hp
    refine ⟨.error f, s'', w'', ?_, rfl, World.le_trans le le', models'', ?_⟩
    · rw [foldFrom, runOn_bind, hn]
      simp only [runOn_bind, putPair, hp]
    · rw [(Quiet.pairOf index item).assocs_eq hp, (Quiet.next it).assocs_eq hn]
      exact Dicts.change_id.symm
  | @pair s s' item index s'' k v patience es out hn hp rest ih =>
    obtain ⟨w', le, models', has⟩ := (Safe.next hit).later models hn
    obtain ⟨w'', le', models'', hkv⟩ := (safe_pairOf index (has item rfl)).later models' hp
    obtain ⟨hk, hes⟩ := List.forall_mem_cons.1 hes
    have le'' := World.le_trans le le'
    have hr' : w''.Has (Value.dict r) := hr.mono le''
    have same : s''.heap.assocs = s.heap.assocs :=
      ((Quiet.pairOf index item).assocs_eq hp).trans ((Quiet.next it).assocs_eq hn)
    have written := assocs_insert models'' hr' (same ▸ free) hkv.1 v
    have after : w''.Models (s''.heap.modifyDict r (·.insert k v)) := by
      rw [Heap.modifyDict_eq]
      exact models''.putDict hr' (Keyed.has_insert (models''.dict r) hkv.1 hkv.2)
    obtain ⟨result, u, w₃, run, ends, le₃, models₃, contents⟩ := ih after hr' (hit.mono le'')
      (written ▸ (same ▸ free).change fun t ht => ht.write hk) hes
    refine ⟨result, u, w₃, ?_, ends, World.le_trans le'' le₃, models₃, ?_⟩
    · rw [foldFrom, runOn_bind, hn]
      simp only [runOn_bind, putPair, hp]
      exact run
    · rw [contents, written, same, Dicts.change_change]
      rfl

theorem Reads.runs {w : World} (h : Reads r v s es out) (plain : ∀ t, v ≠ .dict t)
    (models : w.Models s.heap) (hr : w.Has (Value.dict r)) (hv : w.Has v)
    (free : s.heap.assocs.MethodFree) (hes : es.MethodFree) :
    ∃ s' w', (update r v).runOn s = (out, s') ∧ w ≤ w' ∧ w'.Models s'.heap ∧
      s'.heap.assocs = s.heap.assocs.change r (·.writeAll es) := by
  have unfolded : update r v = fold (putPair r) v 0 >>= fun _ => pure () := by
    unfold update
    split
    · next t => exact absurd rfl (plain t)
    · rfl
  cases h with
  | @refused s' f hi =>
    obtain ⟨w', le, models', -⟩ := (Safe.iter hv).later models hi
    refine ⟨s', w', ?_, le, models', ?_⟩
    · rw [unfolded, runOn_bind, fold, runOn_bind, hi]
    · exact ((Quiet.iter v).assocs_eq hi).trans Dicts.change_id.symm
  | @feeds it s' _ _ hi feeds =>
    obtain ⟨w', le, models', hit⟩ := (Safe.iter hv).later models hi
    have same := (Quiet.iter v).assocs_eq hi
    obtain ⟨result, u, w'', run, ends, le', models'', contents⟩ :=
      feeds.runs models' (hr.mono le) hit (same ▸ free) hes
    refine ⟨u, w'', ?_, World.le_trans le le', models'', same ▸ contents⟩
    have folded : (fold (putPair r) v 0).runOn s = (result, u) := by
      rw [fold, runOn_bind, hi]
      simp only [runOn_bind, runOn_heap, run]
    rw [unfolded, runOn_bind, folded, ← ends]
    cases result <;> rfl

-- ---------------------------------------------------------------------------
-- Sources
-- ---------------------------------------------------------------------------

/-- What an update takes: nothing, a dict, or any other iterable, with the
pairs that are read from it and how reading ends. -/
inductive UpdateSource where
  | nothing
  | dict (r : Ref .dict)
  | iterable (v : Value) (es : Assoc) (out : Except Fault Unit)

namespace UpdateSource

def arguments : UpdateSource → List Value
  | .nothing => []
  | .dict r => [.dict r]
  | .iterable v .. => [v]

def pairs (ds : Dicts) : UpdateSource → Assoc
  | .nothing => []
  | .dict r => ds.read r
  | .iterable _ es _ => es

def ends : UpdateSource → Except Fault Unit
  | .iterable _ _ out => out
  | _ => .ok ()

/-- Reading the source on a session, for an update of a dict, gives these pairs. -/
def Honest (r : Ref .dict) (s : Session) : UpdateSource → Prop
  | .iterable v es out => (∀ t, v ≠ .dict t) ∧ Reads r v s es out
  | _ => True

theorem runs {w : World} {source : UpdateSource} (honest : source.Honest r s)
    (models : w.Models s.heap) (hr : w.Has (Value.dict r)) (has : w.Has source.arguments)
    (free : s.heap.assocs.MethodFree) (hes : (source.pairs s.heap.assocs).MethodFree) :
    ∃ s' w', (source.arguments.forM (update r)).runOn s = (source.ends, s') ∧ w ≤ w' ∧
      w'.Models s'.heap ∧
      s'.heap.assocs = s.heap.assocs.change r (·.writeAll (source.pairs s.heap.assocs)) := by
  cases source with
  | nothing => exact ⟨s, w, rfl, World.le_refl w, models, Dicts.change_id.symm⟩
  | dict r' =>
    have merged : ((s.heap.dict r).merge (s.heap.dict r')).assoc =
        (s.heap.dict r).assoc.writeAll (s.heap.assocs.read r') := by
      rw [Heap.read_assocs]
      refine Keyed.assoc_merge (models.dict r) ?_ (models.dict r') ?_
      · exact Heap.read_assocs s.heap r ▸ free.read r
      · exact Heap.read_assocs s.heap r' ▸ free.read r'
    refine ⟨_, w, rfl, World.le_refl w, ?_, ?_⟩
    · exact (keeps_putAll hr (models.dict r') s models).1
    · exact Heap.assocs_modifyDict (models.index_lt hr rfl) merged
  | iterable v es out =>
    obtain ⟨plain, reads⟩ := honest
    have hv : w.Has v := has v (List.mem_singleton_self v)
    obtain ⟨s', w', run, rest⟩ := reads.runs plain models hr hv free hes
    refine ⟨s', w', ?_, rest⟩
    change (update r v >>= fun _ => pure ()).runOn s = (out, s')
    rw [runOn_bind, run]
    cases out <;> rfl

end UpdateSource

end ObjectModel
