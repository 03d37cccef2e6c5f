import ObjectModel.Proofs.Iteration
import ObjectModel.Proofs.Moves

/-!
# Walking what grows

A live cursor that is stepped to the end of what it walks has shown all of it,
each item once and in order, as long as what it walks only grows at its end.

Main statements: `Walk.exhausted_iff`, and the instance of `Session.Closed` by which
iterating anything is a walk until the cursor is exhausted.
-/

namespace ObjectModel

open ObjectModel.Action

/-- Steps of a live cursor and, between them, changes that leave it in its place
and only add to what it walks. Each step is recorded with the heap that it was
made in. -/
inductive Source.Walk (src : Source) (form : CursorKind) (r : Ref .cursor) (s : Session) :
    List (Heap × Value) → Session → Prop
  | start : Walk src form r s [] s
  | step {ys : List (Heap × Value)} {t u : Session} {x : Value} : Walk src form r s ys t →
    (next (.cursor form r)).runOn t = (.ok (some x), u) → Walk src form r s (ys ++ [(t.heap, x)]) u
  | grow {ys : List (Heap × Value)} {t u : Session} : Walk src form r s ys t →
    u.heap.cursor r = t.heap.cursor r → src.walked t.heap <+: src.walked u.heap →
    Walk src form r s ys u

/-- A record shows a list of items or keys, one after the other. -/
def Source.ShowsAll (src : Source) : List (Heap × Value) → List Value → Prop :=
  List.Forall₂ fun y key => src.Shows y.1 key y.2

/-- The next step of the cursor yields nothing. -/
def Exhausted (form : CursorKind) (r : Ref .cursor) (s : Session) : Prop :=
  ((next (.cursor form r)).runOn s).1 = .ok none

variable {src : Source} {form : CursorKind} {r : Ref .cursor} {s t u : Session} {n : Nat}
  {ys zs : List (Heap × Value)}

-- ---------------------------------------------------------------------------
-- One step
-- ---------------------------------------------------------------------------

theorem next_live_some {x : Value} (hc : s.heap.cursor r = src.cursor n false)
    (run : (next (.cursor form r)).runOn s = (.ok (some x), t)) :
    ∃ key, (src.walked s.heap)[n]? = some key ∧ src.Shows s.heap key x ∧
      t.heap.cursor r = src.cursor (n + 1) false ∧ src.walked t.heap = src.walked s.heap := by
  rw [runOn_next] at run
  cases hn : (src.walked s.heap)[n]? with
  | none =>
    rw [runOn_live_none hc hn] at run
    cases run
  | some key =>
    obtain ⟨x', fresh, run', shows⟩ := runOn_live_some hc hn
    cases (run' _).symm.trans run
    exact ⟨key, rfl, shows, Heap.cursor_putCursor .., Source.walked_congr rfl src⟩

theorem exhausted_iff_length_le (hc : s.heap.cursor r = src.cursor n false) :
    Exhausted form r s ↔ (src.walked s.heap).length ≤ n := by
  rw [← List.getElem?_eq_none_iff, Exhausted, runOn_next]
  cases hn : (src.walked s.heap)[n]? with
  | none => simp [runOn_live_none hc hn]
  | some key =>
    obtain ⟨x, t, run, -⟩ := runOn_live_some hc hn
    simp [run]

-- ---------------------------------------------------------------------------
-- Walks
-- ---------------------------------------------------------------------------

namespace Source.Walk

theorem trans (first : src.Walk form r s ys t) (second : src.Walk form r t zs u) :
    src.Walk form r s (ys ++ zs) u := by
  induction second with
  | start => simpa using first
  | step _ run ih =>
    rw [← List.append_assoc]
    exact ih.step run
  | grow _ same grown ih => exact ih.grow same grown

/-- The cursor is as many places on as there are steps. -/
theorem cursor_eq (walk : src.Walk form r s ys t) (hc : s.heap.cursor r = src.cursor n false) :
    t.heap.cursor r = src.cursor (n + ys.length) false := by
  induction walk with
  | start => exact hc
  | step _ run ih =>
    obtain ⟨-, -, -, placed, -⟩ := next_live_some ih run
    rw [placed, List.length_append]
    rfl
  | grow _ same _ ih => rw [same, ih]

/-- What has been shown is what stands at the front. -/
theorem shows_take (walk : src.Walk form r s ys t) (hc : s.heap.cursor r = src.cursor 0 false) :
    src.ShowsAll ys ((src.walked t.heap).take ys.length) := by
  induction walk with
  | start => exact .nil
  | step walk run ih =>
    have here := walk.cursor_eq hc
    rw [Nat.zero_add] at here
    obtain ⟨key, item, shows, -, same⟩ := next_live_some here run
    rw [same, List.length_append, List.length_singleton, List.take_add_one, item]
    exact List.rel_append ih (.cons shows .nil)
  | grow _ _ grown ih =>
    obtain ⟨more, grown⟩ := grown
    have shown : _ ≤ _ := (List.Forall₂.length_eq ih).trans_le (List.length_take_le' ..)
    rw [← grown, List.take_append_of_le_length shown]
    exact ih

/-- A walk has come to the end when it has shown everything. -/
theorem exhausted_iff (walk : src.Walk form r s ys t) (hc : s.heap.cursor r = src.cursor 0 false) :
    Exhausted form r t ↔ src.ShowsAll ys (src.walked t.heap) := by
  have here := walk.cursor_eq hc
  rw [Nat.zero_add] at here
  rw [exhausted_iff_length_le here]
  constructor
  · intro ended
    have shown := walk.shows_take hc
    rwa [List.take_of_length_le ended] at shown
  · intro shown
    exact (List.Forall₂.length_eq shown).ge

end Source.Walk

-- ---------------------------------------------------------------------------
-- Actions that are walks
-- ---------------------------------------------------------------------------

/-- Whatever place the cursor has, a walk leads on, or it leads to a session in
which the cursor is exhausted. -/
def Source.Tracked (src : Source) (form : CursorKind) (r : Ref .cursor) (s t : Session) : Prop :=
  ∀ n, s.heap.cursor r = src.cursor n false →
    (∃ ys, src.Walk form r s ys t) ∨ ∃ ys u, src.Walk form r s ys u ∧ Exhausted form r u

namespace Source

theorem Tracked.grow (same : t.heap.cursor r = s.heap.cursor r)
    (grown : src.walked s.heap <+: src.walked t.heap) : src.Tracked form r s t :=
  fun _ _ => .inl ⟨[], .grow .start same grown⟩

theorem Tracked.trans (first : src.Tracked form r s t) (second : src.Tracked form r t u) :
    src.Tracked form r s u := by
  intro n hc
  rcases first n hc with ⟨ys, walk⟩ | ended
  · rcases second _ (walk.cursor_eq hc) with ⟨zs, walk'⟩ | ⟨zs, u, walk', ended⟩
    · exact .inl ⟨_, walk.trans walk'⟩
    · exact .inr ⟨_, u, walk.trans walk', ended⟩
  · exact .inr ended

theorem cursor_inj {src' : Source} {n' : Nat} (h : src.cursor n false = src'.cursor n' false) :
    src = src' ∧ n = n' := by
  cases src <;> cases src' <;> cases h <;> exact ⟨rfl, rfl⟩

/-- A step of the cursor itself yields something, or would exhaust it. -/
theorem Tracked.live (next : Value → Action (Option Value)) {src' : Source}
    (hc' : s.heap.cursor r = src'.cursor n false) :
    src.Tracked form r s ((advanceCursor next r).runOn s).2 := by
  intro n' hc
  obtain ⟨rfl, rfl⟩ := cursor_inj (hc.symm.trans hc')
  cases hn : (src.walked s.heap)[n']? with
  | none =>
    refine .inr ⟨[], s, .start, ?_⟩
    exact (exhausted_iff_length_le hc).2 (List.getElem?_eq_none_iff.1 hn)
  | some key =>
    obtain ⟨x, t, run, -⟩ := runOn_live_some hc hn
    rw [run]
    refine .inl ⟨_, .step (x := x) .start ?_⟩
    rw [runOn_next, run]

theorem Tracked.move (move : s.Move t) : src.Tracked form r s t := by
  intro n hc
  have unmoved {r' : Ref .cursor} {c : Cursor} (apart : r ≠ r') :
      (s.place r' c).heap.cursor r = s.heap.cursor r := by
    rw [Session.cursor_place, if_neg apart]
  have kept (same : t.heap.cursor r = s.heap.cursor r) : src.Tracked form r s t :=
    .grow same (Source.walked_congr move.contents_eq src ▸ List.prefix_rfl)
  -- Only its own step moves a live cursor.
  cases move with
  | tag => exact kept rfl n hc
  | file => exact kept rfl n hc
  | opened c =>
    have inside : r.index < s.heap.cursors.size :=
      Heap.index_lt_of_cursor (by rw [hc]; cases src <;> nofun)
    exact kept (Store.get_push_of_lt _ _ inside) n hc
  | @live r' src' n' next hc' =>
    by_cases same : r = r'
    · subst same
      exact Tracked.live next hc' n hc
    · obtain ⟨_, _, cursors⟩ := cursors_of_live next hc'
      refine kept ?_ n hc
      simp only [Heap.cursor, cursors]
      exact unmoved same
  | @placed r' c old =>
    refine kept (unmoved ?_) n hc
    rintro rfl
    simp [hc] at old

instance : Session.Closed (src.Tracked form r) where
  refl _ := .grow rfl List.prefix_rfl
  trans := Tracked.trans
  move := Tracked.move

end Source

end ObjectModel
