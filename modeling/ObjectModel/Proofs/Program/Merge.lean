import ObjectModel.Proofs.Content
import ObjectModel.Proofs.Dict.Merge
import ObjectModel.Proofs.Program.Basic

/-!
# Merging dicts in programs

The operator on dicts, a display that unpacks dicts and an update of a copy all merge.
They make a new dict whose entries are determined by those of the dicts that are merged, and
which are left as they are.

Main statement: `Reachable.merges_agree`.
-/

namespace ObjectModel

open ObjectModel.Action World

namespace Action

/-- The action makes a dict with the entries, and all objects that there were stay as they were. -/
def MakesDict (a : Action Value) (s : Session) (es : List (Key × Value)) : Prop :=
  ∃ d t, a.runOn s = (.ok (.dict d), t) ∧ (t.heap.dict d).entries = es ∧
    s.heap.dicts.size ≤ d.index ∧ d.index < t.heap.dicts.size ∧ s.heap.Adds t.heap

/-- Copies a dict and updates the copy from another dict. -/
def copyUpdated (a b : Ref .dict) : Action Value := do
  let c ← callMethod (.dict a) "copy".toList ⟨[], ∅⟩
  let _ ← callMethod c "update".toList ⟨[.dict b], ∅⟩
  return c

variable {a : Action Value} {f : Value → Action Value} {s : Session} {r r' : Ref .dict}
  {es fs : List (Key × Value)}

theorem makesDict_newDict (t : Table) (s : Session) : (newDict t).MakesDict s t.entries := by
  refine ⟨⟨s.heap.dicts.size⟩, _, rfl, ?_, Nat.le_refl _, ?_, Builds.newDict t s⟩
  · exact congrArg Keyed.entries (Store.get_push_size ..)
  · exact (Nat.lt_succ_self _).trans_eq (Store.size_push ..).symm

/-- What is made after a dict has been made is new as well. -/
theorem MakesDict.bind (first : a.MakesDict s es)
    (next : ∀ d t, s.heap.Adds t.heap → d.index < t.heap.dicts.size →
      (t.heap.dict d).entries = es → (f (.dict d)).MakesDict t fs) : (a >>= f).MakesDict s fs := by
  obtain ⟨d, t, run, entries, -, inside, adds⟩ := first
  obtain ⟨d', t', run', entries', new, inside', adds'⟩ := next d t adds inside entries
  refine ⟨d', t', (runOn_bind_of_ok run f).trans run', entries', ?_, inside', adds.trans adds'⟩
  exact adds.dicts.1.trans new

theorem makesDict_copy (r : Ref .dict) (s : Session) :
    (callMethod (.dict r) "copy".toList ⟨[], ∅⟩).MakesDict s (s.heap.dict r).entries := by
  have called : (callMethod (.dict r) "copy".toList ⟨[], ∅⟩).runOn s =
      (newDict (s.heap.dict r)).runOn s.tick := runOn_callMethod (m := .copy) rfl rfl ..
  obtain ⟨d, t, run, entries, new, inside, adds⟩ := makesDict_newDict (s.heap.dict r) s.tick
  exact ⟨d, t, called.trans run, entries, new, inside, { adds with }⟩

/-- The first session with the table merged into a dict that the heap did not have. -/
structure Merged (h : Heap) (r : Ref .dict) (t : Table) (s u : Session) : Prop where
  table : u.heap.dict r = (s.heap.dict r).merge t
  size : u.heap.dicts.size = s.heap.dicts.size
  adds : h.Adds u.heap

variable {h : Heap}

theorem runOn_putAll (adds : h.Adds s.heap) (new : h.dicts.size ≤ r.index)
    (inside : r.index < s.heap.dicts.size) (t : Table) :
    ∃ u, (DictMethod.putAll r t).runOn s = (.ok (), u) ∧ Merged h r t s u := by
  have run : (DictMethod.putAll r t).runOn s =
      (.ok (), { s with heap := s.heap.modifyDict r (·.merge t) }) := rfl
  rw [Heap.modifyDict_eq] at run
  have size : (s.heap.putDict r ((s.heap.dict r).merge t)).dicts.size = s.heap.dicts.size :=
    Store.size_set_of_lt _ _ inside
  refine ⟨_, run, Heap.dict_putDict .., size, { adds with dicts := ⟨adds.dicts.1.trans size.ge, ?_⟩ }⟩
  intro i old
  exact (Store.get_set_ne _ _ (Nat.ne_of_lt (old.trans_le new))).trans (adds.dicts.2 i old)

/-- An update from a dict merges it. -/
theorem runOn_update (adds : h.Adds s.heap) (new : h.dicts.size ≤ r.index)
    (inside : r.index < s.heap.dicts.size) (r' : Ref .dict) :
    ∃ u, (callMethod (.dict r) "update".toList ⟨[.dict r'], ∅⟩).runOn s = (.ok .none, u) ∧
      Merged h r (s.heap.dict r') s u := by
  have called : (callMethod (.dict r) "update".toList ⟨[.dict r'], ∅⟩).runOn s = _ :=
    runOn_callMethod (m := .update) rfl rfl ..
  have arity : (liftM ((⟨[.dict r'], ∅⟩ : Arguments).arity "update" 0 1) : Action Unit).runOn
      s.tick = (.ok (), s.tick) := rfl
  obtain ⟨u, first, merged⟩ :=
    runOn_putAll (s := s.tick) { adds with } new inside (s.heap.dict r')
  obtain ⟨v, second, still⟩ := runOn_putAll merged.adds new (merged.size ▸ inside) ∅
  have each : ([.dict r'].forM (DictMethod.update r)).runOn s.tick = (.ok (), u) :=
    (runOn_bind_of_ok first _).trans (runOn_pure ..)
  refine ⟨v, ?_, still.table.trans merged.table, still.size.trans merged.size, still.adds⟩
  rw [called, Method.call, DictMethod.call, runOn_bind_of_ok arity, runOn_bind_of_ok each,
    runOn_bind_of_ok second, runOn_pure]

-- ---------------------------------------------------------------------------
-- Ways of merging
-- ---------------------------------------------------------------------------

section
variable {w : World} {t u : Table}

/-- Entries determine the entries of what is merged. -/
theorem makesDict_merge (ht : w.Has t) (hu : w.Has u) (first : t.entries = es)
    (second : u.entries = fs) (s : Session) :
    (newDict (t.merge u)).MakesDict s (Keyed.mergedEntries es fs) :=
  first ▸ second ▸ Keyed.entries_merge ht hu ▸ makesDict_newDict _ s

variable (hr : w.Has (s.heap.dict r)) (hr' : w.Has (s.heap.dict r'))
include hr hr'

theorem makesDict_or (first : (s.heap.dict r).entries = es) (second : (s.heap.dict r').entries = fs) :
    (binary .or (.dict r) (.dict r')).MakesDict s (Keyed.mergedEntries es fs) :=
  makesDict_merge hr hr' first second s

theorem makesDict_display : (DictMethod.ofDisplay [.unpack (.dict r), .unpack (.dict r')]).MakesDict s
    (Keyed.mergedEntries (s.heap.dict r).entries (s.heap.dict r').entries) := by
  have unpacked : ((∅ : Table).merge (s.heap.dict r)).entries = (s.heap.dict r).entries :=
    Keyed.entries_ofEntries (s.heap.dict r).pairwise_entries
  exact makesDict_merge (Keyed.has_merge Keyed.has_empty hr) hr' unpacked rfl s

theorem makesDict_copyUpdated (inside : r'.index < s.heap.dicts.size) :
    (copyUpdated r r').MakesDict s
      (Keyed.mergedEntries (s.heap.dict r).entries (s.heap.dict r').entries) := by
  obtain ⟨d, t, run, entries, new, made, adds⟩ := makesDict_copy r s
  obtain ⟨u, updated, merged⟩ := runOn_update adds new made r'
  have other : t.heap.dict r' = s.heap.dict r' := adds.dicts.2 _ inside
  refine ⟨d, u, ?_, ?_, new, merged.size.symm ▸ made, merged.adds⟩
  · rw [copyUpdated, runOn_bind_of_ok run, runOn_bind_of_ok updated, runOn_pure]
  · have hd : w.Has (t.heap.dict d).entries := entries ▸ hr
    rw [merged.table, other, Keyed.entries_merge hd hr', entries]

/-- It does not matter which two of three dicts are merged first. -/
theorem makesDict_or_or {r'' : Ref .dict} (hr'' : w.Has (s.heap.dict r''))
    (inside : r.index < s.heap.dicts.size) (inside'' : r''.index < s.heap.dicts.size) : ∃ es,
    (do binary .or (← binary .or (.dict r) (.dict r')) (.dict r'')).MakesDict s es ∧
    (do binary .or (.dict r) (← binary .or (.dict r') (.dict r''))).MakesDict s es := by
  refine ⟨(((s.heap.dict r).merge (s.heap.dict r')).merge (s.heap.dict r'')).entries, ?_, ?_⟩
  · refine .bind (makesDict_or hr hr' rfl rfl) fun d t adds _ made => ?_
    rw [← Keyed.entries_merge hr hr'] at made
    have hd : w.Has (t.heap.dict d).entries := made ▸ Keyed.has_merge hr hr'
    have other : t.heap.dict r'' = s.heap.dict r'' := adds.dicts.2 _ inside''
    rw [Keyed.entries_merge (Keyed.has_merge hr hr') hr'']
    exact makesDict_or hd (other ▸ hr'') made (congrArg Keyed.entries other)
  · refine .bind (makesDict_or hr' hr'' rfl rfl) fun d t adds _ made => ?_
    rw [← Keyed.entries_merge hr' hr''] at made
    have hd : w.Has (t.heap.dict d).entries := made ▸ Keyed.has_merge hr' hr''
    have other : t.heap.dict r = s.heap.dict r := adds.dicts.2 _ inside
    rw [Keyed.entries_merge_assoc hr hr' hr'', Keyed.entries_merge hr (Keyed.has_merge hr' hr'')]
    exact makesDict_or (other ▸ hr) hd (congrArg Keyed.entries other) made

end

end Action

-- ---------------------------------------------------------------------------
-- Programs
-- ---------------------------------------------------------------------------

namespace Program

variable {p : Program} {a b c e : Ref .dict}

/-- The entries of a dict, in their order. -/
def entries (p : Program) (r : Ref .dict) : List (Key × Value) := (p.heap.dict r).entries

/-- The three ways of merging keep the first entries in their places, with the second values where
there are some, and add the second entries whose keys are new, in their order. It does not
matter how three dicts are grouped, merging an empty dict on either side or a dict with
itself leaves its entries, and `|` changes no operand. -/
theorem Reachable.merges_agree (reachable : p.Reachable) (ha : p.Holds (.dict a))
    (hb : p.Holds (.dict b)) (hc : p.Holds (.dict c)) :
    (∀ merging ∈ [binary .or (.dict a) (.dict b), copyUpdated a b,
        DictMethod.ofDisplay [.unpack (.dict a), .unpack (.dict b)]],
      merging.MakesDict p.session (Keyed.mergedEntries (p.entries a) (p.entries b))) ∧
    (∃ es,
      (do binary .or (← binary .or (.dict a) (.dict b)) (.dict c)).MakesDict p.session es ∧
      (do binary .or (.dict a) (← binary .or (.dict b) (.dict c))).MakesDict p.session es) ∧
    (∀ e, p.Holds (.dict e) → p.entries e = [] →
      (binary .or (.dict a) (.dict e)).MakesDict p.session (p.entries a) ∧
      (binary .or (.dict e) (.dict a)).MakesDict p.session (p.entries a)) ∧
    (binary .or (.dict a) (.dict a)).MakesDict p.session (p.entries a) ∧
    ∃ x t, (binary .or (.dict a) (.dict b)).runOn p.session = (.ok x, t) ∧
      t.heap.dict a = p.heap.dict a ∧ t.heap.dict b = p.heap.dict b := by
  obtain ⟨w, modeled⟩ := reachable.modeled
  have inside {r : Ref .dict} (hr : p.Holds (.dict r)) : r.index < p.heap.dicts.size :=
    modeled.models.index_lt (modeled.has hr) rfl
  have has (r : Ref .dict) : w.Has (p.heap.dict r) := modeled.models.dict r
  refine ⟨?_, ?_, fun e he empty => ?_, ?_, ?_⟩
  · refine List.forall_mem_cons.2 ⟨makesDict_or (has a) (has b) rfl rfl, ?_⟩
    refine List.forall_mem_cons.2 ⟨makesDict_copyUpdated (has a) (has b) (inside hb), ?_⟩
    exact List.forall_mem_singleton.2 (makesDict_display (has a) (has b))
  · exact makesDict_or_or (has a) (has b) (has c) (inside ha) (inside hc)
  · have right := makesDict_or (s := p.session) (has a) (has e) rfl empty
    have left := makesDict_or (s := p.session) (has e) (has a) empty rfl
    rw [Keyed.mergedEntries_nil] at right
    rw [Keyed.nil_mergedEntries] at left
    exact ⟨right, left⟩
  · have self := makesDict_or (s := p.session) (has a) (has a) rfl rfl
    rwa [Keyed.mergedEntries_self] at self
  · obtain ⟨x, t, run, -, -, -, adds⟩ := makesDict_or (s := p.session) (has a) (has b) rfl rfl
    exact ⟨.dict x, t, run, adds.dicts.2 _ (inside ha), adds.dicts.2 _ (inside hb)⟩

/-- A program that makes `{1: None}`, `{True: True, None: None}` and `{}`. -/
def mergeable : Program := (start [] false).run [.dict [.pair (.int Tag.shared 1) .none],
  .dict [.pair (.bool true) (.bool true), .pair .none .none], .dict []]

/-- The key `1` stays where it is, with the value that `True` has in the second dict. -/
theorem merges_agree_of_mergeable :
    (∃ es, es.map (fun e => (e.1.value, e.2)) =
        [(.int Tag.shared 1, .bool true), (.none, .none)] ∧
      (copyUpdated ⟨0⟩ ⟨1⟩).MakesDict mergeable.session es) ∧
    (binary .or (.dict ⟨2⟩) (.dict ⟨1⟩)).MakesDict mergeable.session (mergeable.entries ⟨1⟩) := by
  have reachable : mergeable.Reachable := (Reachable.start [] false).run (by decide)
  have held (i : Nat) (hi : i ∈ [0, 1, 2]) : mergeable.Holds (.dict ⟨i⟩) := by
    have values : mergeable.values = [.dict ⟨2⟩, .dict ⟨1⟩, .dict ⟨0⟩] := rfl
    refine .value (values ▸ ?_)
    revert i
    simp
  have merges := reachable.merges_agree (held 0 (by simp)) (held 1 (by simp)) (held 2 (by simp))
  refine ⟨⟨_, ?_, merges.1 _ (List.mem_cons_of_mem _ (List.mem_cons_self ..))⟩, ?_⟩
  · rfl
  · have merges := reachable.merges_agree (held 1 (by simp)) (held 0 (by simp)) (held 2 (by simp))
    exact (merges.2.2.1 ⟨2⟩ (held 2 (by simp)) rfl).2

end Program

end ObjectModel
