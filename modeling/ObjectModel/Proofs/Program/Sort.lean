import ObjectModel.Proofs.Equality.Agreement
import ObjectModel.Proofs.Iteration
import ObjectModel.Proofs.Program.Spelling
import ObjectModel.Proofs.Sorting.WeakOrder

/-!
# Sorting in programs

A list is sorted where it is by its method, and the items of any iterable value
are sorted into a new list by the function. Both read the items once, ask the key
function for the score of each, in order, and compare only scores.

A list that is sorted by its own items is empty while they are compared. So a
list that contains itself is sorted by what the comparison says of an empty list;
to items that do not lead to the list this makes no difference.

Main statements: `Target.sorts_stably` and `Target.sort_eq_sorted`.
-/

namespace ObjectModel

open Sorting

/-- What is sorted: a list where it is, or the items of an iterable value anew. -/
inductive Target where
  | inPlace (r : Ref .list)
  | anew (iterable : Value)

/-- The scores that a key function gives the items, asked once for each of them, in
order. Without a key function an item is its own score. -/
inductive Scored (apply : Function.Apply) :
    Option Value → List Value → List Value → Session → Session → Prop
  | keyless (items : List Value) (s : Session) : Scored apply none items items s s
  | nil (key : Value) (s : Session) : Scored apply (some key) [] [] s s
  | cons {key v score : Value} {items scores : List Value} {s s' s'' : Session}
      (asked : (apply key v).runOn s = (.ok score, s'))
      (rest : Scored apply (some key) items scores s' s'') :
      Scored apply (some key) (v :: items) (score :: scores) s s''

/-- Pairs of a score and an item, compared by the scores. -/
def Heap.byScore (h : Heap) : Before (Value × Value) := fun x y => h.compare .lt x.1 y.1

namespace Scored

variable {apply : Function.Apply} {key : Option Value} {items scores : List Value} {s s' : Session}

theorem length_eq (h : Scored apply key items scores s s') : scores.length = items.length := by
  induction h with
  | keyless | nil => rfl
  | cons asked rest ih => rw [List.length_cons, List.length_cons, ih]

theorem runOn_scores {key : Value} (h : Scored apply (some key) items scores s s') :
    (SequenceMethod.scores apply key items).runOn s = (.ok (scores.zip items), s') := by
  generalize hk : some key = asked at h
  induction h with
  | keyless => cases hk
  | nil => rfl
  | cons asked rest ih =>
    cases hk
    rw [SequenceMethod.scores, Action.runOn_bind_of_ok asked, Action.runOn_bind_of_ok (ih rfl)]
    rfl

end Scored

/-- A comparison of scores orders the items that they belong to. -/
theorem weakOrder_byScore {h : Heap} {scores items : List Value}
    (order : WeakOrder (h.compare .lt) scores) (size : scores.length = items.length) :
    WeakOrder h.byScore (scores.zip items) := by
  have alike : Alike (h.compare .lt) h.byScore (·.1) id (scores.zip items) := fun _ _ _ _ => rfl
  have order' := alike.weakOrder (by rwa [List.map_fst_zip size.le])
  rwa [List.map_id] at order'

theorem zip_self (xs : List Value) : xs.zip xs = xs.map fun v => (v, v) := by
  rw [← List.zip_map', List.map_id']

/-- Sorting values is sorting them as their own scores. -/
theorem sortValues_eq {h : Heap} {items : List Value} (order : WeakOrder (h.compare .lt) items)
    (reverse : Bool) {pairs : List (Value × Value)}
    (run : sortScored h reverse (items.zip items) = (pairs, none)) :
    sortValues h reverse items = (pairs.map (·.2), none) := by
  have alike : Alike (h.compare .lt) h.byScore id (fun v => (v, v)) items := fun _ _ _ _ => rfl
  obtain ⟨out, values, paired⟩ := alike.sort_eq (by rwa [List.map_id]) true false reverse
  rw [zip_self] at run
  rw [List.map_id, List.map_id] at values
  obtain rfl : pairs = _ := congrArg Prod.fst (run.symm.trans paired)
  exact values.trans (by simp [Function.comp_def])

theorem runOn_sortedBy {apply : Function.Apply} {key : Value} {items scores : List Value}
    {s s' : Session} (scored : Scored apply (some key) items scores s s') {reverse : Bool}
    {pairs : List (Value × Value)}
    (run : sortScored s'.heap reverse (scores.zip items) = (pairs, none)) :
    (SequenceMethod.sortedBy apply key reverse items).runOn s = (.ok (pairs.map (·.2)), s') := by
  rw [SequenceMethod.sortedBy, Action.runOn_bind_of_ok scored.runOn_scores,
    Action.runOn_bind_of_ok (Action.runOn_heap s'), run]
  rfl

/-- Without a key function, the items are their own scores. -/
theorem runOn_sorted {apply : Function.Apply} {key : Option Value} {items scores : List Value}
    {s s' : Session} (scored : Scored apply key items scores s s') {reverse : Bool}
    {pairs : List (Value × Value)} (order : WeakOrder (s'.heap.compare .lt) scores)
    (run : sortScored s'.heap reverse (scores.zip items) = (pairs, none)) :
    (SequenceMethod.sorted apply key reverse items).runOn s = (.ok (pairs.map (·.2)), s') := by
  cases key with
  | none =>
    cases scored
    rw [SequenceMethod.sorted, Action.runOn_bind_of_ok (Action.runOn_heap s),
      sortValues_eq order reverse run]
    rfl
  | some f => exact runOn_sortedBy scored run

theorem runOn_sortInPlace {r : Ref .list} {reverse : Bool} {s : Session} {sorted : List Value}
    (run : sortValues (s.heap.putList r []) reverse (s.heap.list r) = (sorted, none)) :
    (SequenceMethod.sortInPlace r reverse).runOn s =
      (.ok (), { s with heap := (s.heap.putList r []).putList r sorted }) := by
  have empty : (Action.writeList r []).runOn s = (.ok (), { s with heap := s.heap.putList r [] }) :=
    rfl
  rw [SequenceMethod.sortInPlace, Action.runOn_bind_of_ok (Action.runOn_readList r s),
    Action.runOn_bind_of_ok empty, Action.runOn_bind_of_ok (Action.runOn_heap _), run]
  rfl

theorem runOn_sort_keyless {apply : Function.Apply} {r : Ref .list} {keywords : Table}
    {reverse : Bool} {s : Session} {sorted : List Value}
    (options : (SequenceMethod.sortOptions "sort" ⟨[], keywords⟩).runOn s =
      (.ok (none, reverse), s))
    (run : sortValues (s.heap.putList r []) reverse (s.heap.list r) = (sorted, none)) :
    (SequenceMethod.sort apply r ⟨[], keywords⟩).runOn s =
      (.ok .none, { s with heap := (s.heap.putList r []).putList r sorted }) := by
  rw [SequenceMethod.sort, Action.runOn_bind_of_ok options]
  exact Action.runOn_bind_of_ok (runOn_sortInPlace run) _

theorem runOn_sort_keyed {apply : Function.Apply} {r : Ref .list} {keywords : Table}
    {key : Value} {reverse : Bool} {s s' : Session} {sorted : List Value}
    (options : (SequenceMethod.sortOptions "sort" ⟨[], keywords⟩).runOn s =
      (.ok (some key, reverse), s))
    (run : (SequenceMethod.sortedBy apply key reverse (s.heap.list r)).runOn s = (.ok sorted, s')) :
    (SequenceMethod.sort apply r ⟨[], keywords⟩).runOn s =
      (.ok .none, { s' with heap := s'.heap.putList r sorted }) := by
  rw [SequenceMethod.sort, Action.runOn_bind_of_ok options]
  refine (Action.runOn_bind_of_ok (Action.runOn_readList r s) _).trans ?_
  exact Action.runOn_bind_of_ok run _

namespace Target

def name : Target → String
  | .inPlace _ => "sort"
  | .anew _ => "sorted"

def arguments (keywords : Table) : Target → Arguments
  | .inPlace _ => ⟨[], keywords⟩
  | .anew v => ⟨[v], keywords⟩

/-- The call that sorts. With `Action.applyKey` for the calls of the key function it
is `Action.callMethod` or `Action.call`. -/
def call (apply : Function.Apply) (keywords : Table) (t : Target) : Action Value :=
  match t with
  | .inPlace r => do
    Action.callWith apply (← Action.getAttr (.list r) "sort".toList) (t.arguments keywords)
  | .anew _ => Action.callWith apply (.builtin .sorted) (t.arguments keywords)

/-- Looking the method up uses a tag. -/
def start (s : Session) : Target → Session
  | .inPlace _ => s.tick
  | .anew _ => s

/-- The items that are sorted, and the session when they have been read. -/
def Reads (s : Session) (items : List Value) (s' : Session) : Target → Prop
  | .inPlace r => s.heap.list r = items ∧ s' = s
  | .anew v => (Action.items v).runOn s = (.ok items, s')

/-- A call in the session `s` reads these items, and the key function scores them,
which leads to the session `after`. -/
structure Scores (apply : Function.Apply) (t : Target) (keywords : Table) (s : Session)
    (key : Option Value) (reverse : Bool) (items scores : List Value) (after : Session) : Prop where
  options : (SequenceMethod.sortOptions t.name (t.arguments keywords)).runOn (t.start s) =
    (.ok (key, reverse), t.start s)
  scored : ∃ ready, t.Reads (t.start s) items ready ∧ Scored apply key items scores ready after

/-- The session in which scores are compared that are known in the session `s`. -/
def comparing (key : Option Value) (s : Session) : Target → Session
  | .inPlace r => if key.isNone then { s with heap := s.heap.putList r [] } else s
  | .anew _ => s

/-- No score leads to a list that is empty while the scores are compared. -/
def Spares (key : Option Value) (scores : List Value) (s : Session) : Target → Prop
  | .inPlace r => key = none → ∀ x ∈ scores, s.heap.Apart r x
  | .anew _ => True

/-- The sorted items are the list that was sorted, or a new one, and nothing else has
changed. -/
def Leaves (sorted : List Value) (s : Session) (answer : Value) (s' : Session) : Target → Prop
  | .inPlace r => answer = .none ∧ s'.heap.list r = sorted ∧
    s' = { s with heap := s.heap.putList r sorted }
  | .anew _ => ∃ new, answer = .list new ∧ s'.heap.list new = sorted ∧
    (Action.newList sorted).runOn s = (.ok answer, s')

variable {apply : Function.Apply} {t : Target} {keywords : Table} {key : Option Value}
  {reverse : Bool} {items scores : List Value} {s after : Session}

theorem runOn_getAttr (r : Ref .list) (s : Session) :
    (Action.getAttr (.list r) "sort".toList).runOn s =
      (.ok (.method s.heap.fresh (.list r) .sort), s.tick) := rfl

theorem runOn_newList (sorted : List Value) (s : Session) (v : Value) :
    ∃ answer s', (Action.newList sorted).runOn s = (.ok answer, s') ∧
      (anew v).Leaves sorted s answer s' := by
  obtain ⟨s', run, items, -⟩ := Action.runOn_newList sorted s
  exact ⟨_, s', run, _, rfl, items, run⟩

/-- Two lists of scores for the same items, side by side. -/
theorem zip_zip {scores₁ : List Value} (size : scores.length = items.length)
    (size₁ : scores₁.length = items.length) :
    ∃ zs : List (Value × Value × Value), zs.map (Prod.map id Prod.snd) = scores.zip items ∧
      zs.map (Prod.map id Prod.fst) = scores.zip scores₁ ∧ zs.map Prod.snd = scores₁.zip items := by
  refine ⟨scores.zip (scores₁.zip items), ?_, ?_, ?_⟩
  · rw [← List.zip_map_right, List.map_snd_zip size₁.ge]
  · rw [← List.zip_map_right, List.map_fst_zip size₁.le]
  · exact List.map_snd_zip (by simp [size, size₁])

namespace Scores

theorem length_eq (h : t.Scores apply keywords s key reverse items scores after) :
    scores.length = items.length :=
  let ⟨_, _, scored⟩ := h.scored
  scored.length_eq

/-- The comparison answers as it does before the call has begun to compare. -/
theorem compare_eq (h : t.Scores apply keywords s key reverse items scores after)
    (spares : t.Spares key scores after) {x y : Value} (hx : x ∈ scores) (hy : y ∈ scores) :
    (t.comparing key after).heap.compare .lt x y = after.heap.compare .lt x y := by
  obtain ⟨ready, reads, scored⟩ := h.scored
  cases t with
  | anew => rfl
  | inPlace r =>
    obtain ⟨rfl, rfl⟩ := reads
    cases key with
    | some f => rfl
    | none =>
      cases scored
      exact Heap.compare_putList (Heap.lt_size_of_mem_list hx) [] (spares rfl x hx)
        (spares rfl y hy)

/-- What a call comes to from the sorted pairs of scores and items. -/
theorem runOn_call (h : t.Scores apply keywords s key reverse items scores after)
    (order : WeakOrder ((t.comparing key after).heap.compare .lt) scores)
    {pairs : List (Value × Value)}
    (run : sortScored (t.comparing key after).heap reverse (scores.zip items) = (pairs, none)) :
    ∃ answer final, (t.call apply keywords).runOn s = (.ok answer, final) ∧
      t.Leaves (pairs.map (·.2)) (t.comparing key after) answer final := by
  obtain ⟨options, ready, reads, scored⟩ := h
  cases t with
  | inPlace r =>
    obtain ⟨rfl, rfl⟩ := reads
    rw [call, Action.runOn_bind_of_ok (runOn_getAttr r s)]
    cases key with
    | none =>
      cases scored
      have sorted := sortValues_eq order reverse run
      exact ⟨_, _, runOn_sort_keyless options sorted, rfl, Heap.list_putList .., rfl⟩
    | some f =>
      have sorted := runOn_sortedBy scored run
      exact ⟨_, _, runOn_sort_keyed options sorted, rfl, Heap.list_putList .., rfl⟩
  | anew v =>
    have reads : (Action.items v).runOn s = (.ok items, ready) := reads
    obtain ⟨answer, final, made, leaves⟩ := runOn_newList (pairs.map (·.2)) after v
    refine ⟨answer, final, ?_, leaves⟩
    change (Function.sorted apply ⟨[v], keywords⟩).runOn s = _
    rw [Function.sorted]
    refine (Action.runOn_bind_of_ok options _).trans ?_
    refine (Action.runOn_bind_of_ok reads _).trans ?_
    exact (Action.runOn_bind_of_ok (runOn_sorted scored order run) _).trans made

/-- A call whose scores for the same items are compared alike leaves the items in the
same order. -/
theorem runOn_call_alike (h : t.Scores apply keywords s key reverse items scores after)
    (order : WeakOrder ((t.comparing key after).heap.compare .lt) scores)
    {pairs : List (Value × Value)}
    (run : sortScored (t.comparing key after).heap reverse (scores.zip items) = (pairs, none))
    {t₁ : Target} {apply₁ : Function.Apply} {keywords₁ : Table} {s₁ after₁ : Session}
    {key₁ : Option Value} {scores₁ : List Value}
    (h₁ : t₁.Scores apply₁ keywords₁ s₁ key₁ reverse items scores₁ after₁)
    (same : ∀ x ∈ scores.zip scores₁, ∀ y ∈ scores.zip scores₁,
      (t₁.comparing key₁ after₁).heap.compare .lt x.2 y.2 =
        (t.comparing key after).heap.compare .lt x.1 y.1) :
    ∃ answer final, (t₁.call apply₁ keywords₁).runOn s₁ = (.ok answer, final) ∧
      t₁.Leaves (pairs.map (·.2)) (t₁.comparing key₁ after₁) answer final := by
  have size := h.length_eq
  have size₁ := h₁.length_eq
  obtain ⟨zs, first, both, second⟩ := zip_zip size size₁
  have alike : Alike (t.comparing key after).heap.byScore (t₁.comparing key₁ after₁).heap.byScore
      (Prod.map id Prod.snd) Prod.snd zs :=
    fun x hx y hy => same (Prod.map id Prod.fst x) (both ▸ List.mem_map_of_mem hx)
      (Prod.map id Prod.fst y) (both ▸ List.mem_map_of_mem hy)
  obtain ⟨out, run', run₁⟩ :=
    alike.sort_eq (first ▸ weakOrder_byScore order size) false false reverse
  have run' : sortScored (t.comparing key after).heap reverse (scores.zip items) =
      (out.map (Prod.map id Prod.snd), none) := first ▸ run'
  obtain rfl : pairs = _ := congrArg Prod.fst (run.symm.trans run')
  rw [second] at run₁
  have order₁ : WeakOrder ((t₁.comparing key₁ after₁).heap.compare .lt) scores₁ := by
    have scored : Alike ((t.comparing key after).heap.compare .lt)
      ((t₁.comparing key₁ after₁).heap.compare .lt) (·.1) (·.2) (scores.zip scores₁) := same
    have order' := scored.weakOrder (by rwa [List.map_fst_zip (by omega)])
    rwa [List.map_snd_zip (by omega)] at order'
  obtain ⟨answer, final, called, leaves⟩ := h₁.runOn_call order₁ run₁
  refine ⟨answer, final, called, ?_⟩
  simpa [Function.comp_def] using leaves

end Scores

/-- While scores are compared the comparison answers as before, unless a score leads
to a list that is sorted where it is without a key function. If what it answers never
fails on the scores and is a strict weak order, then a call leaves the items sorted
stably by their scores, having asked the key function once for each item, in order,
and done nothing else. A call, of either kind, whose scores for the same items are
compared alike leaves them in the same order. -/
theorem sorts_stably (h : t.Scores apply keywords s key reverse items scores after) :
    (t.Spares key scores after → ∀ x ∈ scores, ∀ y ∈ scores,
      (t.comparing key after).heap.compare .lt x y = after.heap.compare .lt x y) ∧
    (WeakOrder ((t.comparing key after).heap.compare .lt) scores →
      ∃ sorted,
        (∃ answer final, (t.call apply keywords).runOn s = (.ok answer, final) ∧
          t.Leaves sorted (t.comparing key after) answer final) ∧
        (∃ pairs, StableSort (t.comparing key after).heap.byScore reverse (scores.zip items) pairs ∧
          pairs.map (·.2) = sorted) ∧
        ∀ (t₁ : Target) (apply₁ : Function.Apply) (keywords₁ : Table) (s₁ : Session)
          (key₁ : Option Value) (scores₁ : List Value) (after₁ : Session),
          t₁.Scores apply₁ keywords₁ s₁ key₁ reverse items scores₁ after₁ →
          (∀ x ∈ scores.zip scores₁, ∀ y ∈ scores.zip scores₁,
            (t₁.comparing key₁ after₁).heap.compare .lt x.2 y.2 =
              (t.comparing key after).heap.compare .lt x.1 y.1) →
          ∃ answer final, (t₁.call apply₁ keywords₁).runOn s₁ = (.ok answer, final) ∧
            t₁.Leaves sorted (t₁.comparing key₁ after₁) answer final) := by
  refine ⟨fun spares x hx y hy => h.compare_eq spares hx hy, fun order => ?_⟩
  obtain ⟨pairs, run, stable⟩ := sort_stable (weakOrder_byScore order h.length_eq) false reverse
  exact ⟨pairs.map (·.2), h.runOn_call order run, ⟨pairs, stable, rfl⟩,
    fun _ _ _ _ _ _ _ h₁ same => h.runOn_call_alike order run h₁ same⟩

/-- Without a key function, and if none of its items leads to it, a list comes to be
sorted where it is as it is sorted into a new one. -/
theorem sort_eq_sorted {r : Ref .list}
    (options : ∀ t ∈ [inPlace r, anew (.list r)],
      (SequenceMethod.sortOptions t.name (t.arguments keywords)).runOn (t.start s) =
        (.ok (none, reverse), t.start s))
    (apart : ∀ v ∈ s.heap.list r, s.heap.Apart r v)
    (order : WeakOrder (s.heap.compare .lt) (s.heap.list r)) :
    ∃ sorted,
      (∃ final, ((inPlace r).call apply keywords).runOn s = (.ok .none, final) ∧
        final.heap.list r = sorted) ∧
      ∃ new final, ((anew (.list r)).call apply keywords).runOn s = (.ok (.list new), final) ∧
        final.heap.list new = sorted := by
  obtain ⟨cursors, reads⟩ := runOn_items_list r s
  have here : (inPlace r).Scores apply keywords s none reverse (s.heap.list r) (s.heap.list r)
      s.tick := ⟨options _ (by simp), _, ⟨rfl, rfl⟩, .keyless ..⟩
  have there : (anew (.list r)).Scores apply keywords s none reverse (s.heap.list r)
      (s.heap.list r) (s.withCursors cursors) := ⟨options _ (by simp), _, reads, .keyless ..⟩
  have before (x : Value) (hx : x ∈ s.heap.list r) (y : Value) (hy : y ∈ s.heap.list r) :
      ((inPlace r).comparing none s.tick).heap.compare .lt x y = s.heap.compare .lt x y := by
    rw [← Heap.compare_putList (Heap.lt_size_of_mem_list hx) [] (apart x hx) (apart y hy)]
    exact Heap.compare_of_contents rfl
  have order' : WeakOrder (((inPlace r).comparing none s.tick).heap.compare .lt)
      (s.heap.list r) := by
    have alike : Alike (s.heap.compare .lt)
      (((inPlace r).comparing none s.tick).heap.compare .lt) id id (s.heap.list r) := before
    simpa using alike.weakOrder (by simpa using order)
  obtain ⟨pairs, run, -⟩ := sort_stable (weakOrder_byScore order' here.length_eq) false reverse
  refine ⟨pairs.map (·.2), ?_, ?_⟩
  · obtain ⟨_, final, called, rfl, left, -⟩ := here.runOn_call order' run
    exact ⟨final, called, left⟩
  · obtain ⟨_, final, called, new, rfl, made, -⟩ :=
      here.runOn_call_alike order' run there fun x hx y hy => by
        rw [zip_self] at hx hy
        obtain ⟨v, hv, rfl⟩ := List.mem_map.1 hx
        obtain ⟨u, hu, rfl⟩ := List.mem_map.1 hy
        rw [before v hv u hu]
        exact Heap.compare_of_contents rfl
    exact ⟨new, final, called, made⟩

end Target

namespace Program

/-- The name of a keyword argument. -/
def keyword (name : String) : Key := ⟨.str 0 (.ofChars name.toList), _, rfl⟩

/-- The keyword arguments `key=bool, reverse=True`. -/
def truestFirst : Table :=
  ((∅ : Table).insert (keyword "key") (.type .bool)).insert (keyword "reverse") (.bool true)

/-- A program that has made `["a", "", "b"]`. -/
def words : Program :=
  ((((start [] false).perform (.text (.ofChars ['a']))).perform (.text (.ofChars []))).perform
    (.text (.ofChars ['b']))).perform
    (.list [.str 0 (.ofChars ['a']), .str 1 (.ofChars []), .str 2 (.ofChars ['b'])])

theorem scored_words (s : Session) : Scored Action.applyKey (some (.type .bool))
    [.str 0 (.ofChars ['a']), .str 1 (.ofChars []), .str 2 (.ofChars ['b'])]
    [.bool true, .bool false, .bool true] s s :=
  .cons rfl (.cons rfl (.cons rfl (.nil ..)))

theorem compare_bools (h : Heap) (x y : Bool) :
    h.compare .lt (.bool x) (.bool y) = .ok (!x && y) := by
  cases x <;> cases y <;> rfl

theorem weakOrder_bools (h : Heap) :
    WeakOrder (h.compare .lt) [.bool true, .bool false, .bool true] := by
  constructor <;> simp [isLess, equivalent, compare_bools]

/-- Sorted by their truth in reverse, the empty word comes last and the two others stay
in their order, in the list itself as in a new one. -/
theorem sorts_stably_words :
    (∃ final, (Action.callMethod (.list ⟨0⟩) "sort".toList ⟨[], truestFirst⟩).runOn
        words.session = (.ok .none, final) ∧ final.heap.list ⟨0⟩ =
          [.str 0 (.ofChars ['a']), .str 2 (.ofChars ['b']), .str 1 (.ofChars [])]) ∧
    ∃ final new, (Action.call (.builtin .sorted) ⟨[.list ⟨0⟩], truestFirst⟩).runOn
        words.session = (.ok (.list new), final) ∧ final.heap.list new =
          [.str 0 (.ofChars ['a']), .str 2 (.ofChars ['b']), .str 1 (.ofChars [])] := by
  have scores : (Target.inPlace ⟨0⟩).Scores Action.applyKey truestFirst words.session
      (some (.type .bool)) true
      [.str 0 (.ofChars ['a']), .str 1 (.ofChars []), .str 2 (.ofChars ['b'])]
      [.bool true, .bool false, .bool true] words.session.tick :=
    ⟨rfl, _, ⟨rfl, rfl⟩, scored_words words.session.tick⟩
  obtain ⟨sorted, ⟨answer, final, run, rfl, left, -⟩, stable, same⟩ :=
    (Target.sorts_stably scores).2 (weakOrder_bools _)
  obtain rfl : _ = final := congrArg Prod.snd run
  have order : sorted =
      [.str 0 (.ofChars ['a']), .str 2 (.ofChars ['b']), .str 1 (.ofChars [])] := left.symm
  obtain ⟨cursors, reads⟩ := runOn_items_list ⟨0⟩ words.session
  obtain ⟨_, final, run', new, rfl, made, -⟩ := same (.anew (.list ⟨0⟩)) Action.applyKey truestFirst
    words.session (some (.type .bool)) [.bool true, .bool false, .bool true]
    (words.session.withCursors cursors) ⟨rfl, _, reads, scored_words _⟩
    (by simp [compare_bools])
  exact ⟨⟨_, run, left.trans order⟩, final, new, run', made.trans order⟩

/-- A program that has made `l = []` and `m = []`, and `l.append(l)` and `l.append(m)`. -/
def selfish : Program :=
  (((((start [] false).perform (.list [])).perform (.list [])).perform
    (.callMethod (.list ⟨0⟩) "append".toList (.single (.list ⟨0⟩))))).perform
    (.callMethod (.list ⟨0⟩) "append".toList (.single (.list ⟨1⟩)))

theorem reachable_selfish : selfish.Reachable := by
  refine .perform_handed (.perform_handed (.perform_handed (.perform_handed (.start [] false)
    [] ?_ rfl) [.list ⟨0⟩] ?_ rfl) [.list ⟨1⟩, .list ⟨0⟩] ?_ rfl)
    [.none, .list ⟨1⟩, .list ⟨0⟩] ?_ rfl
  all_goals simp [Operation.operands, Arguments.values, Arguments.single, Value.isShared]

/-- The items of `l` are `l` itself and `m`, and `m < l`. -/
theorem weakOrder_selfish (cursors : Store Cursor) :
    WeakOrder ((selfish.session.withCursors cursors).heap.compare .lt) [.list ⟨0⟩, .list ⟨1⟩] := by
  obtain ⟨lt, h⟩ : ∃ lt, lt = (selfish.session.withCursors cursors).heap.compare .lt := ⟨_, rfl⟩
  have ll : lt (.list ⟨0⟩) (.list ⟨0⟩) = .ok false := h ▸ rfl
  have lm : lt (.list ⟨0⟩) (.list ⟨1⟩) = .ok false := h ▸ rfl
  have ml : lt (.list ⟨1⟩) (.list ⟨0⟩) = .ok true := h ▸ rfl
  have mm : lt (.list ⟨1⟩) (.list ⟨1⟩) = .ok false := h ▸ rfl
  rw [← h]
  constructor <;> simp [isLess, equivalent, ll, lm, ml, mm]

/-- While its items are compared `l` is empty, so `m < l` does not hold and sorting
`l` where it is leaves it as it was, although `m < l` held before and holds after.
Sorted into a new list, `m` comes first. -/
theorem sort_leaves_unordered :
    selfish.Reachable ∧ selfish.heap.list ⟨0⟩ = [.list ⟨0⟩, .list ⟨1⟩] ∧
    WeakOrder (selfish.heap.compare .lt) (selfish.heap.list ⟨0⟩) ∧
    (∃ final, (Action.callMethod (.list ⟨0⟩) "sort".toList ⟨[], ∅⟩).runOn selfish.session =
        (.ok .none, final) ∧
      ¬StableSort (selfish.heap.compare .lt) false (selfish.heap.list ⟨0⟩) (final.heap.list ⟨0⟩) ∧
      ¬StableSort (final.heap.compare .lt) false (selfish.heap.list ⟨0⟩) (final.heap.list ⟨0⟩)) ∧
    ∃ final new, (Action.call (.builtin .sorted) (.single (.list ⟨0⟩))).runOn selfish.session =
        (.ok (.list new), final) ∧
      final.heap.list new = [.list ⟨1⟩, .list ⟨0⟩] := by
  refine ⟨reachable_selfish, rfl, weakOrder_selfish selfish.heap.cursors, ⟨_, rfl, ?_, ?_⟩, ?_⟩
  · intro sorted
    exact absurd (List.rel_of_pairwise_cons sorted.ordered List.mem_cons_self) (by decide)
  · intro sorted
    exact absurd (List.rel_of_pairwise_cons sorted.ordered List.mem_cons_self) (by decide)
  · obtain ⟨cursors, reads⟩ := runOn_items_list ⟨0⟩ selfish.session
    have scores : (Target.anew (.list ⟨0⟩)).Scores Action.applyKey ∅ selfish.session none false
        [.list ⟨0⟩, .list ⟨1⟩] [.list ⟨0⟩, .list ⟨1⟩] (selfish.session.withCursors cursors) :=
      ⟨rfl, _, reads, .keyless ..⟩
    have sorted : sortScored (selfish.session.withCursors cursors).heap false
        [(.list ⟨0⟩, .list ⟨0⟩), (.list ⟨1⟩, .list ⟨1⟩)] =
      ([(.list ⟨1⟩, .list ⟨1⟩), (.list ⟨0⟩, .list ⟨0⟩)], none) := rfl
    obtain ⟨_, final, run, new, rfl, items, -⟩ :=
      scores.runOn_call (weakOrder_selfish cursors) sorted
    exact ⟨final, new, run, items⟩

end Program

end ObjectModel
