import ObjectModel.Proofs.Sequence.Cursor
import ObjectModel.Proofs.World.Exhaustion

/-!
# What a step of an iterator changes

A step changes the iterator, the iterators that it steps and the next tag. All other
objects hold what they held, and every cursor goes on stepping the same iterators.

Main statement: `touches_advance`.
-/

namespace ObjectModel

open ObjectModel.Action

/-- From the first session to the second, the objects that hold something else are among the
given ones, and every cursor steps the iterators that it stepped. -/
structure Session.Touches (touched : Value → Prop) (s t : Session) : Prop where
  content : ∀ v, (∀ u, touched u → u.is v = false) → t.heap.content v = s.heap.content v
  inputs : ∀ r, (t.heap.cursor r).inputs = (s.heap.cursor r).inputs
  size : s.heap.cursors.size ≤ t.heap.cursors.size

namespace Session.Touches

variable {touched touched' : Value → Prop} {s t : Session} {r : Ref .cursor} {c : Cursor}
  {form : CursorKind}

instance : IsPreorder Session (Session.Touches touched) where
  refl _ := ⟨fun _ _ => rfl, fun _ => rfl, Nat.le_refl _⟩
  trans _ _ _ first second :=
    ⟨fun v apart => (second.content v apart).trans (first.content v apart),
      fun r => (second.inputs r).trans (first.inputs r), first.size.trans second.size⟩

theorem mono (touches : s.Touches touched t) (sub : ∀ v, touched v → touched' v) :
    s.Touches touched' t where
  content v apart := touches.content v fun u hu => apart u (sub u hu)
  inputs := touches.inputs
  size := touches.size

theorem of_reaches (reaches : s.Reaches t) : s.Touches touched t := by
  obtain ⟨fresh, rfl⟩ := reaches
  exact ⟨fun v _ => by cases v <;> rfl, fun _ => rfl, Nat.le_refl _⟩

theorem place (here : touched (.cursor form r)) (same : c.inputs = (s.heap.cursor r).inputs) :
    s.Touches touched (s.place r c) where
  content v apart := by
    cases v with
    | cursor form' r' =>
      refine congrArg Content.cursor ((s.cursor_place r' r c).trans (if_neg ?_))
      rintro rfl
      simpa [Value.is, Value.identity] using apart _ here
    | _ => rfl
  inputs r' := by
    rw [s.cursor_place r' r c]
    split
    · next here => rw [same, here]
    · rfl
  size := s.size_le_place r c

theorem then_place (touches : s.Touches touched t) (here : touched (.cursor form r))
    (same : c.inputs = (s.heap.cursor r).inputs) : s.Touches touched (t.place r c) :=
  trans_of (Session.Touches touched) touches (.place here (same.trans (touches.inputs r).symm))

theorem then_ticks {u : Session} (touches : s.Touches touched t) (ticks : t.Ticks u) :
    s.Touches touched u := by
  induction ticks with
  | refl => exact touches
  | tail _ used ih =>
    exact trans_of (Session.Touches touched) ih (.of_reaches (used ▸ Within.reaches_freshTag _))

theorem putFile {f : Ref .file} {mode : FileMode} (here : touched (.file mode f)) (state : File) :
    s.Touches touched { s with heap := s.heap.putFile f state } where
  content v apart := by
    cases v with
    | file mode' f' =>
      refine congrArg Content.file (Store.get_set_ne _ _ fun same => ?_)
      simpa [Value.is, Value.identity, same] using apart _ here
    | _ => rfl
  inputs _ := rfl
  size := Nat.le_refl _

end Session.Touches

variable {s t : Session} {r : Ref .cursor} {next : Value → Action (Option Value)}

-- ---------------------------------------------------------------------------
-- Iterators
-- ---------------------------------------------------------------------------

namespace Heap.Steps

variable {h h' : Heap} {it v : Value} {form : CursorKind}

theorem input (first : h.Steps it (.cursor form r)) (hv : v ∈ (h.cursor r).inputs) :
    h.Steps it v := by
  cases hc : h.cursor r with rw [hc] at hv
  | zip inputs done => exact .zip first hc hv
  | enumerate input counter => exact List.mem_singleton.1 hv ▸ .enumerate first hc
  | _ => cases hv

theorem congr (same : ∀ r, (h'.cursor r).inputs = (h.cursor r).inputs) (steps : h.Steps it v) :
    h'.Steps it v := by
  induction steps with
  | self => exact .self
  | @zip form r inputs done v _ hc hv ih => exact ih.input (by rwa [same, hc])
  | @enumerate form r input counter _ hc ih =>
    exact ih.input (by rw [same, hc]; exact List.mem_singleton_self input)

end Heap.Steps

variable {touched : Value → Prop}

theorem within_nextLine {mode : FileMode} {f : Ref .file} (here : touched (.file mode f)) :
    Within (Session.Touches touched) (nextLine f) := by
  have reaches {α : Type} {a : Action α} (ha : Within Session.Reaches a) :
      Within (Session.Touches touched) a := fun s => .of_reaches (ha s)
  refine .bind (.bind (.bind .heap fun _ => .pure _) fun state => ?_) fun line => ?_
  · refine .bind (fun s => .putFile here _) fun _ => .bind (.lift _) fun raw => ?_
    cases state.mode with
    | binary => exact reaches (.reaches_newBytes raw)
    | text => exact .bind (.lift _) fun cs => reaches (.reaches_newText _)
  · split <;> exact .pure _

theorem touches_advanceRow {its : List Value} (each : ∀ it ∈ its, ∀ t, s.Touches touched t →
    t.Touches touched ((next it).runOn t).2) :
    s.Touches touched ((advanceRow next its).runOn s).2 := by
  induction its generalizing s with
  | nil => exact refl s
  | cons it its ih =>
    obtain ⟨first, rest⟩ := List.forall_mem_cons.1 each
    have first := first s (refl s)
    rw [advanceRow, runOn_bind]
    rcases item : (next it).runOn s with ⟨e | ⟨_ | v⟩, t⟩ <;> rw [item] at first
    · exact first
    · exact first
    · have row := ih fun it hit u later => rest it hit u (trans_of (Session.Touches _) first later)
      have both := trans_of (Session.Touches touched) first row
      simp only [runOn_bind]
      rcases more : (advanceRow next its).runOn t with ⟨e | ⟨_ | vs⟩, u⟩ <;> rw [more] at both <;>
        exact both

theorem touches_advanceCursor {form : CursorKind} (here : touched (.cursor form r))
    (each : ∀ v ∈ (s.heap.cursor r).inputs, ∀ t, s.Touches touched t →
      t.Touches touched ((next v).runOn t).2) :
    s.Touches touched ((advanceCursor next r).runOn s).2 := by
  have row {inputs x t} (hc : s.heap.cursor r = .zip inputs false)
      (run : (advanceRow next inputs).runOn s = (x, t)) : s.Touches touched t := by
    have touches : s.Touches touched ((advanceRow next inputs).runOn s).2 :=
      touches_advanceRow (by rwa [hc] at each)
    rwa [run] at touches
  have item {input counter x t} (hc : s.heap.cursor r = .enumerate input counter)
      (run : (next input).runOn s = (x, t)) : s.Touches touched t := by
    have touches := each input (hc ▸ List.mem_singleton_self input) s (refl s)
    rwa [run] at touches
  have stepped := stepped_advanceCursor next r s
  generalize (advanceCursor next r).runOn s = result at stepped
  cases stepped with
  | finished => exact refl s
  | ended _ step => exact .place here step.inputs_eq
  | shown _ step ticks => exact .then_ticks (.place here step.inputs_eq) ticks
  | rowFailed hc _ run => exact row hc run
  | rowEnded hc _ run => exact (row hc run).then_place here (hc ▸ rfl)
  | rowShown hc _ run ticks => exact (row hc run).then_ticks ticks
  | itemFailed hc run | itemEnded hc run | itemUncounted hc run => exact item hc run
  | itemShown hc run ticks => exact ((item hc run).then_place here (hc ▸ rfl)).then_ticks ticks

/-- A step of an iterator changes the iterators that it steps and nothing else. -/
theorem touches_advance (n : Nat) (it : Value) (s : Session) :
    s.Touches (s.heap.Steps it) ((advance n it).runOn s).2 := by
  induction n generalizing it s with
  | zero => exact refl s
  | succ n ih =>
    cases it with
    | cursor form r =>
      refine touches_advanceCursor .self fun v hv t touches => (ih v t).mono fun u hu => ?_
      exact (Heap.Steps.self.input hv).trans (hu.congr fun r => (touches.inputs r).symm)
    | file mode f => exact within_nextLine .self s
    | _ => exact refl s

theorem touches_next (it : Value) (s : Session) :
    s.Touches (s.heap.Steps it) ((Action.next it).runOn s).2 :=
  touches_advance (s.heap.cursors.size + 1) it s

end ObjectModel
