import Mathlib.Logic.Relation
import ObjectModel.Call.Basic
import ObjectModel.Proofs.Iterator.Step

/-!
# Moves

Iterating changes a session in moves of a few kinds, and so does catching a
fault: a tag is used, a cursor is made or put somewhere, a file is read on. What
holds across each move, and from one move to the next, holds across iterating.

Main statements: `Within.next`, `Within.fold` and `Within.items`.
-/

namespace ObjectModel

open ObjectModel.Action

/-- A live cursor moves by its own steps alone. No other cursor becomes live. -/
inductive Session.Move (s : Session) : Session → Prop
  | tag : Move s s.tick
  | opened (c : Cursor) :
    Move s { s with heap := { s.heap with cursors := s.heap.cursors.push c } }
  | file (r : Ref .file) (f : File) : Move s { s with heap := s.heap.putFile r f }
  | live {r : Ref .cursor} {src : Source} {n : Nat} (next : Value → Action (Option Value))
    (hc : s.heap.cursor r = src.cursor n false) : Move s ((advanceCursor next r).runOn s).2
  | placed {r : Ref .cursor} {c : Cursor} (old : (s.heap.cursor r).source? = none)
    (new : c.source? = none) : Move s (s.place r c)

abbrev Session.Moves : Session → Session → Prop := Relation.ReflTransGen Session.Move

/-- The relation holds across any number of moves. -/
class Session.Closed (R : Session → Session → Prop) : Prop where
  refl : ∀ s, R s s
  trans : ∀ {s t u}, R s t → R t u → R s u
  move : ∀ {s t}, s.Move t → R s t

instance : Session.Closed Session.Moves := ⟨fun _ => .refl, .trans, .single⟩

instance {R : Session → Session → Prop} [closed : Session.Closed R] : IsPreorder Session R where
  refl := closed.refl
  trans _ _ _ := closed.trans

theorem Session.Closed.moves {R : Session → Session → Prop} [Closed R] {s t : Session}
    (h : s.Moves t) : R s t := by
  induction h with
  | refl => exact refl s
  | tail _ step ih => exact trans ih (move step)

variable {s t : Session} {r : Ref .cursor} {src : Source} {n : Nat}

theorem Session.cursor_place (s : Session) (r r' : Ref .cursor) (c : Cursor) :
    (s.place r' c).heap.cursor r = if r = r' then c else s.heap.cursor r := by
  split
  · next same =>
    subst same
    exact Heap.cursor_putCursor ..
  · next apart =>
    refine Store.get_set_ne _ _ fun same => apart ?_
    cases r
    cases r'
    exact congrArg Ref.mk same

theorem Session.size_le_place (s : Session) (r : Ref .cursor) (c : Cursor) :
    s.heap.cursors.size ≤ (s.place r c).heap.cursors.size := by
  rcases Nat.lt_or_ge r.index s.heap.cursors.size with inside | outside
  · exact (Store.size_set_of_lt _ _ inside).ge
  · have beyond : ¬ r.index < s.heap.cursors.cells.size := Nat.not_lt.2 outside
    simp only [place, Heap.putCursor, Store.set, Store.size, dif_neg beyond, Array.size_push,
      Array.size_append]
    omega

theorem Heap.index_lt_of_cursor {h : Heap} (hc : h.cursor r ≠ .items []) :
    r.index < h.cursors.size := by
  refine Nat.lt_of_not_le fun outside => hc ?_
  exact Store.get_of_size_le _ outside

/-- A live cursor is put by its step where it goes, and no other cursor is. -/
theorem cursors_of_live (next : Value → Action (Option Value))
    (hc : s.heap.cursor r = src.cursor n false) :
    ∃ n' done, ((advanceCursor next r).runOn s).2.heap.cursors =
      (s.place r (src.cursor n' done)).heap.cursors := by
  cases hn : (src.walked s.heap)[n]? with
  | none => exact ⟨n, true, by rw [runOn_live_none hc hn]⟩
  | some key =>
    obtain ⟨x, fresh, run, -⟩ := runOn_live_some hc hn
    exact ⟨n + 1, false, by rw [run next]; rfl⟩

theorem contents_of_live (next : Value → Action (Option Value))
    (hc : s.heap.cursor r = src.cursor n false) :
    ((advanceCursor next r).runOn s).2.heap.contents = s.heap.contents := by
  cases hn : (src.walked s.heap)[n]? with
  | none => rw [runOn_live_none hc hn]; rfl
  | some key =>
    obtain ⟨x, fresh, run, -⟩ := runOn_live_some hc hn
    rw [run next]
    rfl

namespace Session

theorem Move.contents_eq (move : s.Move t) : t.heap.contents = s.heap.contents := by
  cases move with
  | live next hc => exact contents_of_live next hc
  | _ => rfl

/-- A cursor that is not live does not become so. -/
theorem Move.still (move : s.Move t) (inside : r.index < s.heap.cursors.size)
    (old : (s.heap.cursor r).source? = none) :
    r.index < t.heap.cursors.size ∧ (t.heap.cursor r).source? = none := by
  cases move with
  | tag => exact ⟨inside, old⟩
  | file => exact ⟨inside, old⟩
  | opened c =>
    refine ⟨?_, ?_⟩
    · rw [Store.size_push]
      exact Nat.lt_succ_of_lt inside
    · simpa only [Heap.cursor, Store.get_push_of_lt _ _ inside] using old
  | @live r' src n next hc =>
    obtain ⟨n', done, cursors⟩ := cursors_of_live next hc
    have apart : r ≠ r' := by
      rintro rfl
      simp [hc] at old
    simp only [Heap.cursor, cursors]
    refine ⟨inside.trans_le (size_le_place ..), ?_⟩
    have same := s.cursor_place r r' (src.cursor n' done)
    rw [if_neg apart] at same
    exact (congrArg Cursor.source? same).trans old
  | @placed r' c _ new =>
    refine ⟨inside.trans_le (size_le_place ..), ?_⟩
    rw [cursor_place]
    split
    · exact new
    · exact old

theorem Moves.still (moves : s.Moves t) (inside : r.index < s.heap.cursors.size)
    (old : (s.heap.cursor r).source? = none) : (t.heap.cursor r).source? = none := by
  have both : r.index < t.heap.cursors.size ∧ (t.heap.cursor r).source? = none := by
    induction moves with
    | refl => exact ⟨inside, old⟩
    | tail _ move ih => exact move.still ih.1 ih.2
  exact both.2

end Session

-- ---------------------------------------------------------------------------
-- Actions within a relation
-- ---------------------------------------------------------------------------

namespace Action

variable {α β : Type} {R : Session → Session → Prop}

namespace Within

section
variable [closed : Session.Closed R]

theorem of_moves {a : Action α} (ha : Within Session.Moves a) : Within R a :=
  fun s => closed.moves (ha s)

end

-- ---------------------------------------------------------------------------
-- One step of an iterator
-- ---------------------------------------------------------------------------

open Session (Moves)

theorem freshTag : Within Moves freshTag := fun _ => .single .tag

theorem newInt (n : Int64) : Within Moves (newInt n) :=
  bind (tagUnless freshTag _) fun _ => pure _

theorem newText (t : Text) : Within Moves (newText t) :=
  bind (tagUnless freshTag _) fun _ => pure _

theorem newBytes (data : List UInt8) : Within Moves (newBytes data) := fun _ => .single .tag

theorem newTuple (items : List Value) : Within Moves (newTuple items) :=
  bind (tagUnless freshTag _) fun _ => pure _

theorem newError (e : ErrorKind) (args : List Value) : Within Moves (newError e args) :=
  fun _ => .single .tag

theorem newCursor (form : CursorKind) (c : Cursor) : Within Moves (newCursor form c) :=
  fun _ => .single (.opened c)

theorem writeFile (r : Ref .file) (f : File) : Within Moves (writeFile r f) :=
  fun _ => .single (.file r f)

theorem readWith (r : Ref .file) (reading : File → Except Cause (List UInt8) × File) :
    Within Moves (readWith r reading) := by
  refine bind (bind heap fun _ => pure _) fun f => ?_
  obtain ⟨outcome, after⟩ := reading f
  refine bind (writeFile r after) fun _ => bind (lift outcome) fun raw => ?_
  cases f.mode with
  | binary => exact newBytes raw
  | text => exact bind (lift _) fun cs => newText _

theorem nextLine (r : Ref .file) : Within Moves (nextLine r) := by
  refine bind (readWith r _) fun line => ?_
  split <;> exact pure _

section
variable {next : Value → Action (Option Value)}

theorem advanceRow (hnext : ∀ v, Within Moves (next v)) (its : List Value) :
    Within Moves (advanceRow next its) := by
  induction its with
  | nil => exact pure _
  | cons it its ih =>
    refine bind (hnext it) fun v => ?_
    cases v with
    | none => exact pure none
    | some v =>
      refine bind ih fun vs => ?_
      cases vs <;> exact pure _

theorem moves_of_ticks (ticks : s.Ticks t) : s.Moves t :=
  ticks.lift id fun _ _ h => h ▸ .tag

theorem moves_live (src : Source) {done : Bool} (hc : s.heap.cursor r = src.cursor n done) :
    s.Moves ((Action.advanceCursor next r).runOn s).2 := by
  cases done with
  | false => exact .single (.live next hc)
  | true =>
    rw [Action.advanceCursor, runOn_bind_of_ok (runOn_readCursor ..), hc]
    cases src <;> exact .refl

/-- What is read from stays where it is while others are stepped. -/
theorem still_of_moves {c : Cursor} (moves : s.Moves t) (hc : s.heap.cursor r = c)
    (old : c.source? = none) (some : c ≠ .items []) : (t.heap.cursor r).source? = none :=
  moves.still (Heap.index_lt_of_cursor (hc ▸ some)) (hc ▸ old)

theorem advanceCursor (hnext : ∀ v, Within Moves (next v)) (r : Ref .cursor) :
    Within Moves (advanceCursor next r) := by
  intro s
  cases old : (s.heap.cursor r).source? with
  | some src =>
    obtain ⟨n, done, hc⟩ := Cursor.exists_of_source? old
    exact moves_live src hc
  | none =>
    have stepped := stepped_advanceCursor next r s
    generalize (Action.advanceCursor next r).runOn s = result at stepped
    cases stepped with
    | finished => exact .refl
    | ended _ step => exact .single (.placed old (step.source?_eq.trans old))
    | shown _ step ticks =>
      exact .head (.placed old (step.source?_eq.trans old)) (moves_of_ticks ticks)
    | rowFailed _ _ row => exact of_runOn (advanceRow hnext _) row
    | rowEnded hc _ row =>
      have moves := of_runOn (advanceRow hnext _) row
      exact moves.tail (.placed (still_of_moves moves hc rfl (by simp)) rfl)
    | rowShown _ _ row ticks =>
      exact (of_runOn (advanceRow hnext _) row).trans (moves_of_ticks ticks)
    | itemFailed _ item | itemEnded _ item | itemUncounted _ item => exact of_runOn (hnext _) item
    | itemShown hc item ticks =>
      have moves := of_runOn (hnext _) item
      have old := still_of_moves moves hc rfl (by simp)
      exact (moves.tail (.placed old (by rfl))).trans (moves_of_ticks ticks)

end

theorem advance (depth : Nat) (v : Value) : Within Moves (advance depth v) := by
  induction depth generalizing v with
  | zero => exact throw _
  | succ depth ih =>
    cases v with
    | cursor form r => exact advanceCursor ih r
    | file mode r => exact nextLine r
    | _ => exact throw _

theorem next (v : Value) : Within Moves (next v) := bind heap fun _ => advance _ v

theorem iter (v : Value) : Within Moves (iter v) := by
  cases v with
  | bytearray r => exact bind (bind heap fun _ => pure _) fun _ => newCursor _ _
  | set r => exact bind (bind heap fun _ => pure _) fun _ => newCursor _ _
  | cursor form r => exact pure _
  | file mode r =>
    refine bind (bind heap fun _ => pure _) fun f => ?_
    split
    · exact pure _
    · exact throw _
  | str | bytes | tuple | list | dict | range | view => exact newCursor _ _
  | _ => exact throw _

-- ---------------------------------------------------------------------------
-- Whole walks
-- ---------------------------------------------------------------------------

section
variable [Session.Closed R] {σ : Type} {step : σ → Value → Action (ForInStep σ)}

theorem foldFrom (hstep : ∀ acc v, Within R (step acc v)) (budget : Nat) (it : Value) (acc : σ) :
    Within R (foldFrom step budget it acc) := by
  induction budget generalizing acc with
  | zero => exact throw _
  | succ budget ih =>
    refine bind (of_moves (next it)) fun v => ?_
    cases v with
    | none => exact pure acc
    | some v =>
      refine bind (hstep acc v) fun r => ?_
      cases r with
      | done acc => exact pure acc
      | yield acc => exact ih acc

theorem fold (hstep : ∀ acc v, Within R (step acc v)) (v : Value) (acc : σ) :
    Within R (fold step v acc) :=
  bind (of_moves (iter v)) fun it => bind heap fun _ => foldFrom hstep _ it acc

theorem items (v : Value) : Within R (items v) :=
  bind (fold (fun _ _ => pure _) v []) fun _ => pure _

theorem pairOf (index : Nat) (item : Value) : Within R (DictMethod.pairOf index item) := by
  unfold DictMethod.pairOf
  split
  · exact throw _
  · refine bind (items item) fun parts => ?_
    split
    · exact bind (lift _) fun _ => pure _
    · exact throw _

theorem callMethod {v : Value} {name : List Char} {m : Method}
    (parts : part? v (String.ofList name) = Pure.pure none)
    (found : (Method.ofName? (String.ofList name)).filter v.supports = some m) {a : Arguments}
    (hm : Within R (m.call applyKey v a)) : Within R (callMethod v name a) := by
  intro s
  rw [runOn_callMethod parts found]
  exact Session.Closed.trans (Session.Closed.move .tag) (hm s.tick)

theorem caught? (f : Fault) : Within R (caught? f) := by
  cases f with
  | missingKey key => exact bind (of_moves (newError .key [key])) fun _ => pure _
  | cause c =>
    refine bind ?_ fun args => bind (of_moves (newError c.kind args)) fun _ => pure _
    unfold argumentsOf
    split
    · exact bind (of_moves (newText _)) fun _ => pure _
    · exact pure _
  | _ => exact pure _

end

end Within

end Action

end ObjectModel
