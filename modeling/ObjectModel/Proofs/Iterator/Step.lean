import Mathlib.Logic.Relation
import ObjectModel.Proofs.Cursor
import ObjectModel.Proofs.Live

/-!
# How a step of a cursor goes

A step finds the cursor at its end, brings it there, or moves it one place on and makes the
value that is shown. A cursor over iterators steps these first, and what comes of them decides.

Main statements: `stepped_advanceCursor` and `runOn_advanceCursor_of_isOver`.
-/

namespace ObjectModel

open ObjectModel.Action

/-- Tags have been used, and nothing else has changed. -/
abbrev Session.Ticks : Session → Session → Prop := Relation.ReflTransGen fun s t => t = s.tick

/-- What a step of a cursor answers and the session that it leaves, if `next` steps the iterators
that the cursor reads. -/
inductive Session.Stepped (s : Session) (next : Value → Action (Option Value)) (r : Ref .cursor) :
    Except Fault (Option Value) × Session → Prop
  | finished : (s.heap.cursor r).isOver = true → Stepped s next r (.ok none, s)
  | ended {c : Cursor} : (s.heap.cursor r).inputs = [] → (s.heap.cursor r).Step c →
    c.isOver = true → Stepped s next r (.ok none, s.place r c)
  | shown {c : Cursor} {v : Value} {t : Session} : (s.heap.cursor r).inputs = [] →
    (s.heap.cursor r).Step c → (s.place r c).Ticks t → Stepped s next r (.ok (some v), t)
  | rowFailed {inputs : List Value} {e : Fault} {t : Session} :
    s.heap.cursor r = .zip inputs false → inputs ≠ [] →
    (advanceRow next inputs).runOn s = (.error e, t) → Stepped s next r (.error e, t)
  | rowEnded {inputs : List Value} {t : Session} : s.heap.cursor r = .zip inputs false →
    inputs ≠ [] → (advanceRow next inputs).runOn s = (.ok none, t) →
    Stepped s next r (.ok none, t.place r (.zip inputs true))
  | rowShown {inputs row : List Value} {tag : Tag} {t u : Session} :
    s.heap.cursor r = .zip inputs false → inputs ≠ [] →
    (advanceRow next inputs).runOn s = (.ok (some row), t) → t.Ticks u →
    Stepped s next r (.ok (some (.tuple tag row)), u)
  | itemFailed {input : Value} {counter : Option Int64} {e : Fault} {t : Session} :
    s.heap.cursor r = .enumerate input counter → (next input).runOn s = (.error e, t) →
    Stepped s next r (.error e, t)
  | itemEnded {input : Value} {counter : Option Int64} {t : Session} :
    s.heap.cursor r = .enumerate input counter → (next input).runOn s = (.ok none, t) →
    Stepped s next r (.ok none, t)
  | itemUncounted {input v : Value} {t : Session} : s.heap.cursor r = .enumerate input none →
    (next input).runOn s = (.ok (some v), t) → Stepped s next r (.error (.cause .overflow), t)
  | itemShown {input v : Value} {n : Int64} {tag tag' : Tag} {t u : Session} :
    s.heap.cursor r = .enumerate input (some n) → (next input).runOn s = (.ok (some v), t) →
    (t.place r (.enumerate input (Checked.narrow? (n.toInt + 1)))).Ticks u →
    Stepped s next r (.ok (some (.tuple tag [.int tag' n, v])), u)

variable {s t u : Session} {next : Value → Action (Option Value)} {r : Ref .cursor}

/-- A cursor goes on walking the same source. -/
theorem Cursor.Step.source?_eq {c c' : Cursor} (step : c.Step c') : c'.source? = c.source? := by
  cases step <;> rfl

-- ---------------------------------------------------------------------------
-- Values that are shown
-- ---------------------------------------------------------------------------

theorem ticks_makeUnless (shared : Bool) (mk : Tag → Value) (s : Session) :
    ∃ tag t, (do return mk (← tagUnless shared) : Action Value).runOn s = (.ok (mk tag), t) ∧
      s.Ticks t := by
  cases shared with
  | true => exact ⟨Tag.shared, s, rfl, .refl⟩
  | false => exact ⟨s.heap.fresh, s.tick, rfl, .single rfl⟩

/-- The action makes a value, using tags alone. -/
def Action.Ticking (make : Action Value) : Prop :=
  ∀ s, ∃ v t, make.runOn s = (.ok v, t) ∧ s.Ticks t

theorem ticking_pure (v : Value) : Ticking (pure v) := fun s => ⟨v, s, rfl, .refl⟩

theorem ticking_makeUnless (shared : Bool) (mk : Tag → Value) :
    Ticking (do return mk (← tagUnless shared)) := fun s => by
  obtain ⟨tag, t, run, ticks⟩ := ticks_makeUnless shared mk s
  exact ⟨mk tag, t, run, ticks⟩

theorem ticking_newInt (n : Int64) : Ticking (newInt n) := ticking_makeUnless (isSmall n) (.int · n)

theorem ticking_newText (t : Text) : Ticking (newText t) := ticking_makeUnless t.isEmpty (.str · t)

theorem ticking_newTuple (items : List Value) : Ticking (newTuple items) :=
  ticking_makeUnless items.isEmpty (.tuple · items)

-- ---------------------------------------------------------------------------
-- Cursors over iterators
-- ---------------------------------------------------------------------------

/-- A step of a zip that has inputs and has not come to its end. -/
theorem runOn_zip {inputs : List Value} (hc : s.heap.cursor r = .zip inputs false)
    (nonempty : inputs ≠ []) : (advanceCursor next r).runOn s = (do
      match ← advanceRow next inputs with
      | some row => return some (← newTuple row)
      | none => do writeCursor r (.zip inputs true); return none : Action _).runOn s := by
  have live : ¬ (false || inputs.isEmpty) = true := by simpa using nonempty
  rw [advanceCursor, runOn_bind_of_ok (runOn_readCursor ..), hc]
  exact congrArg (fun a : Action (Option Value) => a.runOn s) (if_neg live)

theorem runOn_enumerate {input : Value} {counter : Option Int64}
    (hc : s.heap.cursor r = .enumerate input counter) : (advanceCursor next r).runOn s = (do
      match ← next input with
      | none => return none
      | some v =>
        match counter with
        | none => fail .overflow
        | some n => do
          writeCursor r (.enumerate input (Checked.narrow? (n.toInt + 1)))
          return some (← newTuple [← newInt n, v]) : Action _).runOn s :=
  (runOn_bind_of_ok (runOn_readCursor r s) _).trans (hc ▸ rfl)

-- ---------------------------------------------------------------------------
-- Outcomes
-- ---------------------------------------------------------------------------

namespace Session.Stepped

theorem of_show {c : Cursor} {make : Action Value} (leaf : (s.heap.cursor r).inputs = [])
    (step : (s.heap.cursor r).Step c) (ticking : Ticking make) :
    s.Stepped next r ((do writeCursor r c; return some (← make) : Action _).runOn s) := by
  obtain ⟨v, t, made, ticks⟩ := ticking (s.place r c)
  have written : (writeCursor r c).runOn s = (.ok (), s.place r c) := rfl
  rw [runOn_bind_of_ok written, runOn_bind_of_ok made]
  exact .shown leaf step ticks

theorem of_zip {inputs : List Value} {done : Bool} (hc : s.heap.cursor r = .zip inputs done) :
    s.Stepped next r ((advanceCursor next r).runOn s) := by
  by_cases finished : (done || inputs.isEmpty) = true
  · rw [advanceCursor, runOn_bind_of_ok (runOn_readCursor ..), hc]
    simp only [if_pos finished]
    exact .finished (hc ▸ finished)
  obtain ⟨rfl, nonempty⟩ : done = false ∧ inputs ≠ [] := by simpa using finished
  rw [runOn_zip hc nonempty, runOn_bind]
  rcases row : (advanceRow next inputs).runOn s with ⟨e | ⟨_ | vs⟩, t⟩
  · exact .rowFailed hc nonempty row
  · exact .rowEnded hc nonempty row
  · obtain ⟨tag, u, made, ticks⟩ := ticks_makeUnless vs.isEmpty (.tuple · vs) t
    have made : (newTuple vs).runOn t = (.ok (.tuple tag vs), u) := made
    simp only [runOn_bind_of_ok made, runOn_pure]
    exact .rowShown hc nonempty row ticks

theorem of_enumerate {input : Value} {counter : Option Int64}
    (hc : s.heap.cursor r = .enumerate input counter) :
    s.Stepped next r ((advanceCursor next r).runOn s) := by
  rw [runOn_enumerate hc, runOn_bind]
  rcases item : (next input).runOn s with ⟨e | ⟨_ | v⟩, t⟩
  · exact .itemFailed hc item
  · exact .itemEnded hc item
  · cases counter with
    | none => exact .itemUncounted hc item
    | some n =>
      obtain ⟨t', moved⟩ : ∃ u, u = t.place r (.enumerate input (Checked.narrow? (n.toInt + 1))) :=
        ⟨_, rfl⟩
      have written : (writeCursor r (.enumerate input (Checked.narrow? (n.toInt + 1)))).runOn t =
          (.ok (), t') := moved ▸ rfl
      obtain ⟨tag', u', number, first⟩ := ticks_makeUnless (isSmall n) (.int · n) t'
      have number : (newInt n).runOn t' = (.ok (.int tag' n), u') := number
      obtain ⟨tag, u, pair, second⟩ := ticks_makeUnless false (.tuple · [.int tag' n, v]) u'
      have pair : (newTuple [.int tag' n, v]).runOn u' = (.ok (.tuple tag [.int tag' n, v]), u) :=
        pair
      simp only [runOn_bind_of_ok written, runOn_bind_of_ok number, runOn_bind_of_ok pair,
        runOn_pure]
      exact .itemShown hc item (moved ▸ first.trans second)

end Session.Stepped

/-- All that a step of a cursor can do. -/
theorem stepped_advanceCursor (next : Value → Action (Option Value)) (r : Ref .cursor)
    (s : Session) : s.Stepped next r ((advanceCursor next r).runOn s) := by
  cases hc : s.heap.cursor r with
  | zip inputs done => exact .of_zip hc
  | enumerate input counter => exact .of_enumerate hc
  | _ => ?_
  all_goals rw [advanceCursor, runOn_bind_of_ok (runOn_readCursor ..), hc]
  case list source position done =>
    cases done with
    | true => exact .finished (hc ▸ rfl)
    | false =>
      change s.Stepped next r ((readListItem? source position >>= _).runOn s)
      rw [runOn_bind_of_ok (runOn_readListItem? ..)]
      cases s.heap.listItem? source position with
      | none => exact .ended (hc ▸ rfl) (hc ▸ .listEnd ..) rfl
      | some v => exact .of_show (hc ▸ rfl) (hc ▸ .list ..) (ticking_pure v)
  case dict part source position done =>
    cases done with
    | true => exact .finished (hc ▸ rfl)
    | false =>
      change s.Stepped next r ((readDict source >>= _).runOn s)
      rw [runOn_bind_of_ok (runOn_readDict ..)]
      cases (s.heap.dict source).entryAt? position with
      | none => exact .ended (hc ▸ rfl) (hc ▸ .dictEnd ..) rfl
      | some entry =>
        cases part with
        | keys => exact .of_show (hc ▸ rfl) (hc ▸ .dict ..) (ticking_pure entry.1.value)
        | values => exact .of_show (hc ▸ rfl) (hc ▸ .dict ..) (ticking_pure entry.2)
        | items => exact .of_show (hc ▸ rfl) (hc ▸ .dict ..) (ticking_newTuple _)
  case items rest =>
    cases rest with
    | nil => exact .finished (hc ▸ rfl)
    | cons v vs => exact .of_show (hc ▸ rfl) (hc ▸ .items ..) (ticking_pure v)
  case bytes rest =>
    cases rest with
    | nil => exact .finished (hc ▸ rfl)
    | cons b bs => exact .of_show (hc ▸ rfl) (hc ▸ .bytes ..) (ticking_newInt _)
  case text offset rest =>
    cases rest with
    | nil => exact .finished (hc ▸ rfl)
    | cons c cs => exact .of_show (hc ▸ rfl) (hc ▸ .text ..) (ticking_newText _)
  case backwardText rest =>
    cases rest with
    | nil => exact .finished (hc ▸ rfl)
    | cons c cs => exact .of_show (hc ▸ rfl) (hc ▸ .backwardText ..) (ticking_newText _)
  case range current step n =>
    cases n with
    | zero => exact .finished (hc ▸ rfl)
    | succ n => exact .of_show (hc ▸ rfl) (hc ▸ .range ..) (ticking_newInt current)
  case backwardList source bound =>
    cases bound with
    | zero => exact .finished (hc ▸ rfl)
    | succ n =>
      change s.Stepped next r ((readListItem? source n >>= _).runOn s)
      rw [runOn_bind_of_ok (runOn_readListItem? ..)]
      cases s.heap.listItem? source n with
      | none => exact .ended (hc ▸ rfl) (hc ▸ .backwardListEnd ..) rfl
      | some v => exact .of_show (hc ▸ rfl) (hc ▸ .backwardList ..) (ticking_pure v)
  case backwardBytearray source bound =>
    cases bound with
    | zero => exact .finished (hc ▸ rfl)
    | succ n =>
      change s.Stepped next r ((readBytearrayItem? source n >>= _).runOn s)
      rw [runOn_bind_of_ok (runOn_readBytearrayItem? ..)]
      cases s.heap.bytearrayItem? source n with
      | none => exact .ended (hc ▸ rfl) (hc ▸ .backwardBytearrayEnd ..) rfl
      | some b => exact .of_show (hc ▸ rfl) (hc ▸ .backwardBytearray ..) (ticking_newInt _)
  case backwardRange source bound =>
    cases bound with
    | zero => exact .finished (hc ▸ rfl)
    | succ n => exact .of_show (hc ▸ rfl) (hc ▸ .backwardRange ..) (ticking_newInt _)

/-- A cursor at its end yields nothing and does not move. -/
theorem runOn_advanceCursor_of_isOver (finished : (s.heap.cursor r).isOver = true) :
    (advanceCursor next r).runOn s = (.ok none, s) := by
  have stepped := stepped_advanceCursor next r s
  generalize (advanceCursor next r).runOn s = result at stepped
  cases stepped with
  | finished => rfl
  | ended _ step | shown _ step => cases step.not_isOver.symm.trans finished
  | rowFailed hc nonempty | rowEnded hc nonempty | rowShown hc nonempty =>
    rw [hc] at finished
    exact absurd (List.isEmpty_iff.1 finished) nonempty
  | itemFailed hc | itemEnded hc | itemUncounted hc | itemShown hc =>
    rw [hc] at finished
    cases finished

end ObjectModel
