import ObjectModel.Iteration
import ObjectModel.Proofs.World.Keyed
import ObjectModel.Proofs.World.Safe

/-!
# Iterating is safe

A step of a cursor hands out an item that its source holds or makes a new one.

Main statements: `Safe.next`, `Safe.iter`, `Safe.fold` and `Safe.items`.
-/

namespace ObjectModel

open ObjectModel.Action

instance {σ : Type} [Carries σ] : Carries (ForInStep σ) where
  Has w r := match r with
    | .done x => w.Has x
    | .yield x => w.Has x
  mono {w w' r} le h := by
    cases r with
    | done x => exact World.Has.mono (x := x) h le
    | yield x => exact World.Has.mono (x := x) h le

namespace World.Safe

variable {w : World}

theorem readWith {mode : FileMode} {r : Ref .file} (hr : w.Has (Value.file mode r))
    (reading : File → Except Cause (List UInt8) × File) : w.Safe (readWith r reading) := by
  refine (Keeps.readFile r).and_then fun f _ => ?_
  obtain ⟨outcome, after⟩ := reading f
  refine (Keeps.writeFile hr after).and_then fun _ _ => ?_
  refine (Keeps.lift fun _ _ _ _ => trivial).and_then fun raw _ => ?_
  cases f.mode with
  | binary => exact newBytes raw
  | text => exact (Keeps.lift fun _ _ _ _ => trivial).and_then fun cs _ => newChars cs

theorem nextLine {mode : FileMode} {r : Ref .file} (hr : w.Has (Value.file mode r)) :
    w.Safe (nextLine r) := by
  refine bind (readWith hr _) fun w' line _ hl => ?_
  split
  · exact pure has_none
  · split
    · exact pure has_none
    · exact pure (has_some hl)
  · exact pure (has_some hl)

section
variable {next : Value → Action (Option Value)}

theorem advanceRow {its : List Value} (has : w.Has its)
    (hnext : ∀ w' v, w ≤ w' → w'.Has v → w'.Safe (next v)) : w.Safe (advanceRow next its) := by
  induction its generalizing w with
  | nil => exact pure (has_some has_nil)
  | cons it its ih =>
    obtain ⟨hit, hits⟩ := List.forall_mem_cons.1 has
    refine bind (hnext w it (le_refl w) hit) fun w' v le hv => ?_
    cases v with
    | none => exact pure has_none
    | some v =>
      have row := ih (w := w') (World.Has.mono (x := its) hits le) fun w'' v le' =>
        hnext w'' v (le_trans le le')
      refine bind row fun w'' vs le' hvs => ?_
      cases vs with
      | none => exact pure has_none
      | some vs => exact pure (has_some (has_cons (World.Has.mono (hv v rfl) le') (hvs vs rfl)))

/-- What follows a step of a cursor. -/
theorem after_writeCursor {β : Type} [Carries β] {form : CursorKind} {r : Ref .cursor}
    {c c' : Cursor} {k : Unit → Action β} (hr : w.Has (Value.cursor form r)) (admits : w.Admits r c)
    (step : c.Step c') (has : w.Has c'.parts) (hk : w.Safe (k ())) :
    w.Safe (writeCursor r c' >>= k) :=
  (Keeps.writeCursor hr has (admits.step step)).and_then fun _ _ => hk

theorem advanceCursor {form : CursorKind} {r : Ref .cursor} (hr : w.Has (Value.cursor form r))
    (hnext : ∀ w' v, w ≤ w' → w'.Has v → w'.Safe (next v)) : w.Safe (advanceCursor next r) := by
  refine cursor_bind fun c hc admits => ?_
  cases c with
  | list source position done =>
    simp only
    split
    · exact pure has_none
    · next live =>
      obtain rfl : done = false := Bool.eq_false_iff.2 live
      refine (Keeps.readListItem? source position).and_then fun o ho => ?_
      cases o with
      | none => exact after_writeCursor hr admits (.listEnd ..) hc (pure has_none)
      | some v => exact after_writeCursor hr admits (.list ..) hc (pure ho)
  | dict part source position done =>
    simp only
    split
    · exact pure has_none
    · next live =>
      obtain rfl : done = false := Bool.eq_false_iff.2 live
      refine (Keeps.readDict source).and_then fun t ht => ?_
      split
      · next k v he =>
        obtain ⟨hk, hv⟩ := Keyed.has_entryAt? ht he
        refine after_writeCursor hr admits (.dict ..) hc ?_
        cases part with
        | keys => exact pure (has_some hk)
        | values => exact pure (has_some hv)
        | items =>
          exact bind (newTuple (has_cons hk (has_cons hv has_nil))) fun _ _ _ hp =>
            pure (has_some hp)
      · exact after_writeCursor hr admits (.dictEnd ..) hc (pure has_none)
  | items rest =>
    cases rest with
    | nil => exact pure has_none
    | cons v vs =>
      obtain ⟨hv, hvs⟩ := List.forall_mem_cons.1 hc
      exact after_writeCursor hr admits (.items ..) hvs (pure (has_some hv))
  | bytes rest =>
    cases rest with
    | nil => exact pure has_none
    | cons b bs =>
      refine after_writeCursor hr admits (.bytes ..) has_nil ?_
      exact bind (newByte b) fun _ _ _ hb => pure (has_some hb)
  | text offset rest =>
    cases rest with
    | nil => exact pure has_none
    | cons c cs =>
      refine after_writeCursor hr admits (.text ..) has_nil ?_
      exact bind (newText _) fun _ _ _ hb => pure (has_some hb)
  | backwardText rest =>
    cases rest with
    | nil => exact pure has_none
    | cons c cs =>
      refine after_writeCursor hr admits (.backwardText ..) has_nil ?_
      exact bind (newText _) fun _ _ _ hb => pure (has_some hb)
  | range current step remaining =>
    cases remaining with
    | zero => exact pure has_none
    | succ n =>
      refine after_writeCursor hr admits (.range ..) has_nil ?_
      exact bind (newInt _) fun _ _ _ hb => pure (has_some hb)
  | backwardList source bound =>
    cases bound with
    | zero => exact pure has_none
    | succ n =>
      refine (Keeps.readListItem? source n).and_then fun o ho => ?_
      cases o with
      | none => exact after_writeCursor hr admits (.backwardListEnd ..) hc (pure has_none)
      | some v => exact after_writeCursor hr admits (.backwardList ..) hc (pure ho)
  | backwardBytearray source bound =>
    cases bound with
    | zero => exact pure has_none
    | succ n =>
      refine (Keeps.readBytearrayItem? source n).and_then fun o _ => ?_
      cases o with
      | none => exact after_writeCursor hr admits (.backwardBytearrayEnd ..) hc (pure has_none)
      | some b =>
        refine after_writeCursor hr admits (.backwardBytearray ..) hc ?_
        exact bind (newByte b) fun _ _ _ hb => pure (has_some hb)
  | backwardRange source bound =>
    cases bound with
    | zero => exact pure has_none
    | succ n =>
      refine after_writeCursor hr admits (.backwardRange ..) has_nil ?_
      exact bind (newInt _) fun _ _ _ hb => pure (has_some hb)
  | zip inputs done =>
    simp only
    split
    · exact pure has_none
    · next live =>
      obtain ⟨rfl, some⟩ : done = false ∧ inputs ≠ [] := by simpa using live
      refine bind (advanceRow hc hnext) fun w' row le hrow => ?_
      cases row with
      | none =>
        refine after_writeCursor (hr.mono le) (admits.mono le) (.zipEnd some) ?_ (pure has_none)
        exact World.Has.mono (x := inputs) hc le
      | some row => exact bind (newTuple (hrow row rfl)) fun _ _ _ hp => pure (has_some hp)
  | enumerate input counter =>
    refine bind (hnext w input (le_refl w) (hc input (List.mem_singleton_self _))) fun w' o le ho => ?_
    cases o with
    | none => exact pure has_none
    | some v =>
      cases counter with
      | none => exact fail
      | some n =>
        have hc : w'.Has [input] := World.Has.mono (x := [input]) hc le
        refine after_writeCursor (hr.mono le) (admits.mono le) (.enumerate ..) hc ?_
        refine bind (newInt n) fun w'' i le' hi => ?_
        have hv : w''.Has v := World.Has.mono (ho v rfl) le'
        exact bind (newTuple (has_cons hi (has_cons hv has_nil))) fun _ _ _ hp =>
          pure (has_some hp)

end

theorem advance (depth : Nat) {v : Value} (hv : w.Has v) : w.Safe (advance depth v) := by
  induction depth generalizing w v with
  | zero => exact throw trivial
  | succ depth ih =>
    cases v with
    | cursor form r => exact advanceCursor hv fun _ _ _ => ih
    | file mode r => exact nextLine hv
    | _ => exact unimplemented

theorem next {v : Value} (hv : w.Has v) : w.Safe (next v) :=
  heap_bind fun h _ => advance (h.cursors.size + 1) hv

theorem iter {v : Value} (hv : w.Has v) : w.Safe (iter v) := by
  cases v with
  | str tag t => exact newCursor _ has_nil
  | bytes tag data => exact newCursor _ has_nil
  | bytearray r => exact (Keeps.readBytearray r).and_then fun _ _ => newCursor _ has_nil
  | tuple tag items => exact newCursor _ fun _ => w.parts hv
  | list r => exact newCursor _ (has_cons hv has_nil)
  | dict r => exact newCursor _ (has_cons hv has_nil)
  | set r =>
    refine (Keeps.readSet r).and_then fun keys hk => newCursor _ fun v hv => ?_
    obtain ⟨k, hk', rfl⟩ := List.mem_map.1 hv
    exact Keyed.has_keys hk k hk'
  | range tag r => exact newCursor _ has_nil
  | view tag part r => exact newCursor _ (has_cons (w.parts hv (List.mem_singleton_self _)) has_nil)
  | cursor form r => exact pure hv
  | file mode r =>
    refine (Keeps.readFile r).and_then fun f _ => ?_
    split
    · exact pure hv
    · exact fail
  | _ => exact fail

section
variable {σ : Type} [Carries σ] {step : σ → Value → Action (ForInStep σ)}

theorem foldFrom (budget : Nat) {it : Value} {acc : σ} (hit : w.Has it) (hacc : w.Has acc)
    (hstep : ∀ w' acc v, w ≤ w' → w'.Has acc → w'.Has v → w'.Safe (step acc v)) :
    w.Safe (foldFrom step budget it acc) := by
  induction budget generalizing w acc with
  | zero => exact throw trivial
  | succ budget ih =>
    refine bind (next hit) fun w' o le ho => ?_
    cases o with
    | none => exact pure (hacc.mono le)
    | some v =>
      refine bind (hstep w' acc v le (hacc.mono le) (ho v rfl)) fun w'' r le' hr => ?_
      cases r with
      | done acc => exact pure hr
      | yield acc =>
        have le'' := le_trans le le'
        exact ih (hit.mono le'') hr fun u acc v le => hstep u acc v (le_trans le'' le)

theorem fold {v : Value} {acc : σ} (hv : w.Has v) (hacc : w.Has acc)
    (hstep : ∀ w' acc v, w ≤ w' → w'.Has acc → w'.Has v → w'.Safe (step acc v)) :
    w.Safe (fold step v acc) := by
  refine bind (iter hv) fun w' it le hit => heap_bind fun h _ => ?_
  exact foldFrom _ hit (hacc.mono le) fun u acc v le' => hstep u acc v (le_trans le le')

end

theorem items {v : Value} (hv : w.Has v) : w.Safe (items v) := by
  refine bind (fold hv has_nil fun _ _ _ _ hacc hx => pure (has_cons hx hacc)) ?_
  exact fun w' xs _ hxs => pure fun x hx => hxs x (List.mem_reverse.1 hx)

end World.Safe

end ObjectModel
