import ObjectModel.Proofs.Program.Exhaustion
import ObjectModel.Proofs.Program.InPlace
import ObjectModel.Proofs.Program.Order
import ObjectModel.Proofs.Program.Sort
import ObjectModel.Proofs.Sequence.Cursor

/-!
# Least and greatest items

`min` and `max` go through the items once and keep the best of them, `sorted`
sorts all of them. With scores that have an order, both find the same object: the
first of the items that no other is better than. A key function may make objects
on the way but must leave those that there are.

Main statement: `Reachable.extreme_eq_sorted_head`.
-/

namespace ObjectModel

open ObjectModel.Action World Sorting
open ObjectModel.Function (Extreme scoreOf bestOf)

namespace Function.Extreme

def builtin : Extreme → Builtin
  | .least => .min
  | .greatest => .max

/-- Whether sorting puts it first when the direction is reversed. -/
def reversed : Extreme → Bool
  | .least => false
  | .greatest => true

end Function.Extreme

-- ---------------------------------------------------------------------------
-- Comparing by data
-- ---------------------------------------------------------------------------

/-- Values compared by the data that go with them. -/
def byData (rank : Value → Datum) : Before Value :=
  fun v u => .ok ((rank v).order? (rank u) == some .lt)

section
variable {rank : Value → Datum} {items : List Value} {v u : Value} {o : Ordering}

theorem isLess_byData : isLess (byData rank) v u = true ↔ (rank v).order? (rank u) = some .lt := by
  simp [isLess, byData]

/-- Neither is less than the other only if the data are the same. -/
theorem equivalent_byData (comparable : ((rank v).order? (rank u)).isSome) :
    equivalent (byData rank) v u = true ↔ rank v = rank u := by
  obtain ⟨o, order⟩ := Option.isSome_iff_exists.1 comparable
  have back := Datum.order?_swap (rank v) (rank u)
  rw [order] at back
  rw [← Datum.order?_eq_iff, order]
  cases o <;> simp [equivalent, isLess, byData, order, back]

theorem weakOrder_byData
    (comparable : ∀ v ∈ items, ∀ u ∈ items, ((rank v).order? (rank u)).isSome) :
    WeakOrder (byData rank) items where
  total _ _ _ _ := ⟨_, rfl⟩
  irrefl v _ := by
    rw [← Bool.not_eq_true, isLess_byData, Datum.order?_eq_iff.2 rfl]
    decide
  trans v _ u _ x _ vu ux := by
    rw [isLess_byData] at vu ux ⊢
    exact Datum.order?_trans vu ux
  equivalent_trans v hv u hu x hx vu ux := by
    rw [equivalent_byData (comparable v hv u hu)] at vu
    rw [equivalent_byData (comparable u hu x hx)] at ux
    exact (equivalent_byData (comparable v hv x hx)).2 (vu.trans ux)

/-- Being better is going before in the direction in which the best comes first. -/
theorem holds_comparison (order : WeakOrder (byData rank) items) (which : Extreme) (hv : v ∈ items)
    (hu : u ∈ items) (known : (rank v).order? (rank u) = some o) :
    which.comparison.holds o = isLess (goesBefore (byData rank) which.reversed) v u := by
  rw [order.isLess_goesBefore which.reversed hv hu]
  cases which with
  | least =>
    cases o <;> simp [Extreme.comparison, Comparison.holds, Extreme.reversed, isLess, byData, known]
  | greatest =>
    have back := Datum.order?_swap (rank v) (rank u)
    rw [known] at back
    cases o <;> simp [Extreme.comparison, Comparison.holds, Extreme.reversed, isLess, byData, back]

end

-- ---------------------------------------------------------------------------
-- Growing
-- ---------------------------------------------------------------------------

/-- A later world models the session, which has all that the heap has. -/
structure World.Grows (w : World) (h : Heap) (w' : World) (s : Session) : Prop where
  le : w ≤ w'
  models : w'.Models s.heap
  adds : h.Adds s.heap

/-- The value is an object of the world and stands for the datum. -/
structure World.Knows (w : World) (h : Heap) (v : Value) (d : Datum) : Prop where
  has : w.Has v
  denotes : h.Denotes v d

section
variable {w w' w'' : World} {h h' : Heap} {s t : Session} {a b v : Value} {d e : Datum}
  {o : Ordering}

theorem World.Grows.refl (models : w.Models s.heap) : w.Grows s.heap w s :=
  ⟨le_refl w, models, .refl _⟩

theorem World.Grows.trans (first : w.Grows h w' s) (second : w'.Grows s.heap w'' t) :
    w.Grows h w'' t where
  le := le_trans first.le second.le
  models := second.models
  adds := first.adds.trans second.adds

theorem World.Models.has_elements (models : w.Models h) (has : w.Has v) {items : List Value}
    (elements : h.elements? v = some (items.map .value)) : w.Has items := by
  by_cases nonempty : items = []
  · exact nonempty ▸ has_nil
  · obtain ⟨l, rfl, rfl⟩ | ⟨tag, rfl⟩ := Heap.of_elements?_values elements nonempty
    · exact models.list l
    · exact fun x hx => w.parts has hx

/-- Reading the items of a list or a tuple. -/
theorem World.Models.runOn_items (models : w.Models s.heap) (has : w.Has v) {items : List Value}
    (elements : s.heap.elements? v = some (items.map .value)) :
    ∃ t w', (Action.items v).runOn s = (.ok items, t) ∧ w.Grows s.heap w' t := by
  obtain ⟨t, reads, adds⟩ := runOn_items_elements elements
  obtain ⟨w', le, models', -⟩ := World.Safe.items has s models
  rw [reads] at models'
  exact ⟨t, w', reads, le, models', adds⟩

/-- What is added does not change what a value stands for. -/
theorem Heap.Denotes.adds (hd : h.Denotes v d) (adds : h.Adds h') (models : w.Models h)
    (has : w.Has v) : h'.Denotes v d := by
  have kept {u : Value} (hu : w.Has u) : h'.content u = h.content u :=
    adds.content_eq (models.stores hu)
  induction d using Datum.induct generalizing v with
  | number =>
    cases hd with
    | number hn => exact .number hn
  | text =>
    cases hd with
    | text => exact .text
  | bytes =>
    cases hd with
    | @bytes v data hb =>
      refine .bytes ?_
      cases v with
      | bytearray r =>
        have same : h'.bytearray r = h.bytearray r := by simpa [content] using kept has
        rwa [bytesOf?, same]
      | _ => exact hb
  | list ds ih =>
    cases hd with
    | @list r _ items =>
      have same : h'.list r = h.list r := by simpa [content] using kept has
      refine .list (same ▸ forall₂_imp_of_mem items fun x hx d hd denotes => ?_)
      exact ih d hd denotes (models.list r x hx)
  | tuple ds ih =>
    cases hd with
    | tuple items =>
      refine .tuple (forall₂_imp_of_mem items fun x hx d hd denotes => ?_)
      exact ih d hd denotes (w.parts has hx)

theorem World.Knows.grows (known : w.Knows h v d) (models : w.Models h) (grows : w.Grows h w' s) :
    w'.Knows s.heap v d where
  has := known.has.mono grows.le
  denotes := known.denotes.adds grows.adds models known.has

theorem World.Knows.compare_eq (ha : w.Knows h a d) (hb : w.Knows h b e) (models : w.Models h)
    (order : d.order? e = some o) (op : Comparison) : h.compare op a b = .ok (op.holds o) := by
  have answers := ha.denotes.answers models ha.has hb.has ha.denotes.acyclic hb.denotes op
  rwa [order] at answers

theorem World.Knows.runOn_compare (ha : w.Knows s.heap a d) (hb : w.Knows s.heap b e)
    (models : w.Models s.heap) (order : d.order? e = some o) (op : Comparison) :
    (compare op a b).runOn s = (.ok (op.holds o), s) :=
  Program.finds_compare_iff (p := ⟨s, []⟩).2 (ha.compare_eq hb models order op)

end

-- ---------------------------------------------------------------------------
-- Scores
-- ---------------------------------------------------------------------------

namespace Program

variable {p q : Program} {key : Option Value} {items : List Value} {rank : Value → Datum}

/-- Without a key function, the value is its own score and stands for the datum. A key
function leaves all objects that the program has, and whatever other objects there
are when it is called, it gives a score that stands for the datum. -/
def ScoresAs (p : Program) (key : Option Value) (v : Value) (d : Datum) : Prop :=
  match key with
  | none => p.heap.Denotes v d
  | some f => ∀ s : Session, p.heap.Adds s.heap → ∃ score t,
    (applyKey f v).runOn s = (.ok score, t) ∧ s.heap.Adds t.heap ∧ t.heap.Denotes score d

/-- The scores of all items are data, of which any two have an order. -/
structure Ranks (p : Program) (key : Option Value) (items : List Value)
    (rank : Value → Datum) : Prop where
  scores : ∀ v ∈ items, p.ScoresAs key v (rank v)
  comparable : ∀ v ∈ items, ∀ u ∈ items, ((rank v).order? (rank u)).isSome

/-- Asking for the scores of two values and comparing these. -/
def compareScores (key : Option Value) (op : Comparison) (v u : Value) : Action Bool := do
  let score ← scoreOf applyKey key v
  let other ← scoreOf applyKey key u
  compare op score other

namespace Ranks

/-- `None` is not called. -/
theorem ne_none (ranks : p.Ranks key items rank) (nonempty : items ≠ []) :
    ∀ f, key = some f → f ≠ .none := by
  rintro f rfl rfl
  obtain ⟨v, hv⟩ := List.exists_mem_of_ne_nil items nonempty
  obtain ⟨score, t, run, -⟩ := ranks.scores v hv p.session (.refl _)
  cases run

variable (ranks : p.Ranks key items rank) {w w₁ : World} (models : w.Models p.heap)
  (hasKey : w.Has key) (hasItems : w.Has items) {s : Session} {v u : Value} {vs : List Value}
include ranks models hasKey hasItems

theorem runOn_scoreOf (hv : v ∈ items) (grows : w.Grows p.heap w₁ s) : ∃ score t w₂,
    (scoreOf applyKey key v).runOn s = (.ok score, t) ∧ w₁.Grows s.heap w₂ t ∧
      w₂.Knows t.heap score (rank v) := by
  have scores := ranks.scores v hv
  have has := hasItems v hv
  cases key with
  | none =>
    have known : w.Knows p.heap v (rank v) := ⟨has, scores⟩
    exact ⟨v, s, w₁, rfl, .refl grows.models, known.grows models grows⟩
  | some f =>
    obtain ⟨score, t, run, adds, denotes⟩ := scores s grows.adds
    obtain ⟨w₂, le, models₂, has₂⟩ := safelyApplied_applyKey ((hasKey f rfl).mono grows.le)
      (has.mono grows.le) s grows.models
    rw [run] at models₂ has₂
    exact ⟨score, t, w₂, run, ⟨le, models₂, adds⟩, has₂, denotes⟩

theorem runOn_compareScores (hv : v ∈ items) (hu : u ∈ items) (grows : w.Grows p.heap w₁ s)
    (which : Extreme) : ∃ t, (compareScores key which.comparison v u).runOn s =
      (.ok (isLess (goesBefore (byData rank) which.reversed) v u), t) := by
  obtain ⟨score, t, w₂, run, grows₂, known⟩ :=
    ranks.runOn_scoreOf models hasKey hasItems hv grows
  obtain ⟨other, t', w₃, run', grows₃, known'⟩ :=
    ranks.runOn_scoreOf models hasKey hasItems hu (grows.trans grows₂)
  obtain ⟨o, order⟩ := Option.isSome_iff_exists.1 (ranks.comparable v hv u hu)
  refine ⟨t', ?_⟩
  rw [compareScores, runOn_bind_of_ok run, runOn_bind_of_ok run',
    (known.grows grows₂.models grows₃).runOn_compare known' grows₃.models order,
    holds_comparison (weakOrder_byData ranks.comparable) which hv hu order]

/-- The best item that `min` and `max` keep. -/
theorem runOn_bestOf (which : Extreme) (r : Value → Nat)
    (less : ∀ v ∈ items, ∀ u ∈ items,
      isLess (goesBefore (byData rank) which.reversed) v u = true ↔ r v < r u)
    {best : Option (Value × Value)}
    (known : ∀ b ∈ best, b.2 ∈ items ∧ w₁.Knows s.heap b.1 (rank b.2))
    (sub : ∀ v ∈ vs, v ∈ items) (grows : w.Grows p.heap w₁ s) :
    ∃ t, (bestOf applyKey which key best vs).runOn s =
      (.ok (vs.foldl (List.argAux fun v u => r v < r u) (best.map (·.2))), t) ∧
      s.heap.Adds t.heap := by
  -- The score of the best so far is known in the session that the next item is asked in.
  induction vs generalizing w₁ s best with
  | nil => exact ⟨s, by rw [bestOf]; rfl, .refl _⟩
  | cons v vs ih =>
    obtain ⟨hv, sub⟩ := List.forall_mem_cons.1 sub
    obtain ⟨score, t, w₂, run, grows₂, fresh⟩ :=
      ranks.runOn_scoreOf models hasKey hasItems hv grows
    have further (b : Value × Value) (hb : b.2 ∈ items ∧ w₂.Knows t.heap b.1 (rank b.2)) :
        ∃ t', (bestOf applyKey which key (some b) vs).runOn t =
          (.ok (vs.foldl (List.argAux fun v u => r v < r u) (some b.2)), t') ∧
          t.heap.Adds t'.heap :=
      ih (fun _ same => Option.mem_some_iff.1 same ▸ hb) sub (grows.trans grows₂)
    rw [List.foldl_cons]
    cases best with
    | none =>
      obtain ⟨t', rest, adds⟩ := further (score, v) ⟨hv, fresh⟩
      exact ⟨t', by rw [bestOf, runOn_bind_of_ok run, rest]; rfl, grows₂.adds.trans adds⟩
    | some b =>
      obtain ⟨old, m⟩ := b
      obtain ⟨hm, before⟩ := known _ rfl
      have kept := before.grows grows.models grows₂
      obtain ⟨o, order⟩ := Option.isSome_iff_exists.1 (ranks.comparable v hv m hm)
      have better : which.comparison.holds o = decide (r v < r m) := by
        rw [holds_comparison (weakOrder_byData ranks.comparable) which hv hm order,
          Bool.eq_iff_iff, less v hv m hm, decide_eq_true_iff]
      have compared := fresh.runOn_compare kept grows₂.models order which.comparison
      rw [better] at compared
      rw [bestOf, runOn_bind_of_ok run]
      by_cases lower : r v < r m
      · rw [decide_eq_true lower] at compared
        obtain ⟨t', rest, adds⟩ := further (score, v) ⟨hv, fresh⟩
        refine ⟨t', (runOn_bind_of_ok compared _).trans (rest.trans ?_), grows₂.adds.trans adds⟩
        simp [List.argAux, lower]
      · rw [decide_eq_false lower] at compared
        obtain ⟨t', rest, adds⟩ := further (old, m) ⟨hm, kept⟩
        refine ⟨t', (runOn_bind_of_ok compared _).trans (rest.trans ?_), grows₂.adds.trans adds⟩
        simp [List.argAux, lower]

/-- The scores that sorting asks for. -/
theorem exists_scored (sub : ∀ v ∈ vs, v ∈ items) (grows : w.Grows p.heap w₁ s) :
    ∃ scores t w₂, Scored applyKey key vs scores s t ∧ w₁.Grows s.heap w₂ t ∧
      List.Forall₂ (fun score v => w₂.Knows t.heap score (rank v)) scores vs := by
  cases key with
  | none =>
    refine ⟨vs, s, w₁, .keyless vs s, .refl grows.models, ?_⟩
    refine List.forall₂_same.2 fun v hv => ?_
    have known : w.Knows p.heap v (rank v) := ⟨hasItems v (sub v hv), ranks.scores v (sub v hv)⟩
    exact known.grows models grows
  | some f =>
    induction vs generalizing w₁ s with
    | nil => exact ⟨[], s, w₁, .nil f s, .refl grows.models, .nil⟩
    | cons v vs ih =>
      obtain ⟨hv, sub⟩ := List.forall_mem_cons.1 sub
      obtain ⟨score, t, w₂, run, grows₂, known⟩ :=
        ranks.runOn_scoreOf models hasKey hasItems hv grows
      obtain ⟨scores, t', w₃, scored, grows₃, others⟩ := ih sub (grows.trans grows₂)
      exact ⟨score :: scores, t', w₃, .cons run scored, grows₂.trans grows₃,
        .cons (known.grows grows₂.models grows₃) others⟩

end Ranks

-- ---------------------------------------------------------------------------
-- Calls
-- ---------------------------------------------------------------------------

/-- The keyword argument `key`, if there is a key function. -/
def keyed : Option Value → Table
  | none => ∅
  | some f => (∅ : Table).insert (keyword "key") f

/-- The same, with `reverse=True` if the greatest is to come first. -/
def sorting (which : Extreme) (key : Option Value) : Table :=
  match which with
  | .least => keyed key
  | .greatest => (keyed key).insert (keyword "reverse") (.bool true)

theorem unlessNone_eq (proper : ∀ f, key = some f → f ≠ .none) :
    Arguments.unlessNone key = key := by
  cases key with
  | none => rfl
  | some f => cases f <;> first | rfl | exact absurd rfl (proper _ rfl)

theorem runOn_sortOptions (which : Extreme) (xs : Value) (proper : ∀ f, key = some f → f ≠ .none)
    (s : Session) : (SequenceMethod.sortOptions "sorted" ⟨[xs], sorting which key⟩).runOn s =
      (.ok (key, which.reversed), s) := by
  have options : (SequenceMethod.sortOptions "sorted" ⟨[xs], sorting which key⟩).runOn s =
      (.ok (Arguments.unlessNone key, which.reversed), s) := by
    cases key <;> cases which <;> rfl
  rw [options, unlessNone_eq proper]

/-- What `min` and `max` come to when the items have been read and the best has been found. -/
theorem runOn_extreme (which : Extreme) {xs best : Value} (proper : ∀ f, key = some f → f ≠ .none)
    {s t u : Session} (reads : (Action.items xs).runOn s = (.ok items, t))
    (found : (bestOf applyKey which key none items).runOn t = (.ok (some best), u)) :
    (call (.builtin which.builtin) ⟨[xs], keyed key⟩).runOn s = (.ok best, u) := by
  have called : call (.builtin which.builtin) ⟨[xs], keyed key⟩ =
      Function.extreme applyKey which ⟨[xs], keyed key⟩ := by
    cases which <;> rfl
  have given : (⟨[xs], keyed key⟩ : Arguments).keyword? "key" = key := by
    cases key <;> rfl
  have allowed : (⟨[xs], keyed key⟩ : Arguments).allow which.name ["key", "default"] = .ok () := by
    cases key <;> rfl
  rw [called, Function.extreme, allowed]
  refine (runOn_bind_of_ok (runOn_pure ..) _).trans ?_
  refine (runOn_bind_of_ok reads _).trans ?_
  rw [given, unlessNone_eq proper]
  exact (runOn_bind_of_ok found _).trans rfl

theorem runOn_getItem_first {l : Ref .list} {s : Session} {y : Value} {ys : List Value}
    (items : s.heap.list l = y :: ys) :
    (getItem (.list l) (.int Tag.shared 0)).runOn s = (.ok y, s) := by
  have item : (s.heap.list l)[0]? = some y := by rw [items]; rfl
  exact runOn_lift_of_ok (Subscript.pick_eq_ok (i := 0) rfl item "list") s

/-- Sorting by scores is sorting by the data that they stand for. -/
theorem runOn_sorted_head {w : World} {xs y : Value} {ys scores : List Value} {s t u : Session}
    (ranks : p.Ranks key items rank) (which : Extreme) (proper : ∀ f, key = some f → f ≠ .none)
    (reads : (Action.items xs).runOn s = (.ok items, t)) (models : w.Models u.heap)
    (scored : Scored applyKey key items scores t u)
    (known : List.Forall₂ (fun score v => w.Knows u.heap score (rank v)) scores items)
    (sorted : sort (byData rank) false which.reversed items = (y :: ys, none)) :
    ∃ l t, (call (.builtin .sorted) ⟨[xs], sorting which key⟩).runOn s = (.ok (.list l), t) ∧
      u.heap.Adds t.heap ∧ (getItem (.list l) (.int Tag.shared 0)).runOn t = (.ok y, t) := by
  have same : ∀ a ∈ scores.zip items, ∀ b ∈ scores.zip items,
      u.heap.compare .lt a.1 b.1 = byData rank a.2 b.2 := by
    rintro ⟨a, v⟩ ha ⟨b, v'⟩ hb
    obtain ⟨o, order⟩ := Option.isSome_iff_exists.1
      (ranks.comparable v (List.of_mem_zip ha).2 v' (List.of_mem_zip hb).2)
    have compared :=
      (List.forall₂_zip known ha).compare_eq (List.forall₂_zip known hb) models order .lt
    rw [compared, byData, order]
    cases o <;> rfl
  have size := known.length_eq
  have order : WeakOrder (byData rank) ((scores.zip items).map (·.2)) := by
    rw [List.map_snd_zip size.ge]
    exact weakOrder_byData ranks.comparable
  have alike : Alike (byData rank) u.heap.byScore (·.2) id (scores.zip items) := same
  have compared : Alike (byData rank) (u.heap.compare .lt) (·.2) (·.1) (scores.zip items) := same
  obtain ⟨out, run, run'⟩ := alike.sort_eq order false false which.reversed
  rw [List.map_snd_zip size.ge, sorted, Prod.mk.injEq, and_iff_left rfl] at run
  rw [List.map_id, List.map_id] at run'
  have weak : WeakOrder (u.heap.compare .lt) scores := by
    have weak := compared.weakOrder order
    rwa [List.map_fst_zip size.le] at weak
  have calls : (Target.anew xs).Scores applyKey (sorting which key) s key which.reversed items
      scores u := ⟨runOn_sortOptions which xs proper s, t, reads, scored⟩
  obtain ⟨answer, final, called, l, rfl, left, made⟩ := calls.runOn_call weak run'
  have adds := (Builds.newList (out.map (·.2))).adds u
  rw [show Target.comparing key u (.anew xs) = u from rfl] at made
  rw [made] at adds
  exact ⟨l, final, called, adds, runOn_getItem_first (left.trans run.symm)⟩

/-- For a list or a tuple with items and for scores that have an order, `min` and
`max` find the very object that comes first when the items are sorted, in reverse
for `max`. No item has a better score, and those before it have worse ones. The calls
only add to what there is, and as long as the program does so they find this object
again. -/
theorem Reachable.extreme_eq_sorted_head (reachable : p.Reachable) {xs : Value} (held : p.Holds xs)
    (elements : p.heap.elements? xs = some (items.map .value)) (nonempty : items ≠ [])
    (callable : ∀ f, key = some f → p.Holds f) (ranks : p.Ranks key items rank)
    (which : Extreme) :
    ∃ best front back, items = front ++ best :: back ∧
      ∀ q, p.Leads q → p.heap.Adds q.heap →
        (∃ t, (call (.builtin which.builtin) ⟨[xs], keyed key⟩).runOn q.session = (.ok best, t) ∧
          q.heap.Adds t.heap) ∧
        (∃ l t, (call (.builtin .sorted) ⟨[xs], sorting which key⟩).runOn q.session =
            (.ok (.list l), t) ∧ q.heap.Adds t.heap ∧
          (getItem (.list l) (.int Tag.shared 0)).runOn t = (.ok best, t)) ∧
        (∀ v ∈ front, ∃ t,
          (compareScores key which.comparison best v).runOn q.session = (.ok true, t)) ∧
        ∀ v ∈ items, ∃ t,
          (compareScores key which.comparison v best).runOn q.session = (.ok false, t) := by
  obtain ⟨w, modeled⟩ := reachable.modeled
  have models := modeled.models
  have hasKey : w.Has key := fun f hf => modeled.has (callable f hf)
  have hasItems := models.has_elements (modeled.has held) elements
  have proper := ranks.ne_none nonempty
  have order := weakOrder_byData ranks.comparable
  obtain ⟨best, rest, sorted, least, front, back, split, worse, noBetter⟩ :=
    sort_first order nonempty false which.reversed
  have hbest : best ∈ items := split ▸ List.mem_append_right _ List.mem_cons_self
  refine ⟨best, front, back, split, fun q leads adds => ?_⟩
  obtain ⟨w₁, le, modeled₁⟩ := modeled.leads leads
  have grows : w.Grows p.heap w₁ q.session := ⟨le, modeled₁.models, adds⟩
  obtain ⟨t, w₂, reads, grows₂⟩ := modeled₁.models.runOn_items ((modeled.has held).mono le)
    ((adds.elements?_eq (models.stores (modeled.has held))).trans elements)
  have both := grows.trans grows₂
  refine ⟨?_, ?_, fun v hv => ?_, fun v hv => ?_⟩
  · obtain ⟨u, found, more⟩ : ∃ u, (bestOf applyKey which key none items).runOn t =
        (.ok (items.argmin (rankIn (goesBefore (byData rank) which.reversed) items)), u) ∧
          t.heap.Adds u.heap :=
      ranks.runOn_bestOf models hasKey hasItems which _
        (fun v hv u hu => (order.goesBefore which.reversed).isLess_iff hv hu) nofun (fun _ => id)
        both
    rw [least] at found
    exact ⟨u, runOn_extreme which proper reads found, grows₂.adds.trans more⟩
  · obtain ⟨scores, u, w₃, scored, grows₃, known⟩ :=
      ranks.exists_scored models hasKey hasItems (fun _ => id) both
    obtain ⟨l, t', called, more, first⟩ :=
      runOn_sorted_head ranks which proper reads grows₃.models scored known sorted
    exact ⟨l, t', called, grows₂.adds.trans (grows₃.adds.trans more), first⟩
  · have compared := ranks.runOn_compareScores models hasKey hasItems hbest
      (split ▸ List.mem_append_left _ hv) grows which
    rwa [worse v hv] at compared
  · have compared := ranks.runOn_compareScores models hasKey hasItems hv hbest grows which
    rwa [noBetter v hv] at compared

/-- A program that has made `[2, 0, 3]`. -/
def numbers : Program := (start [] false).run [.list [.int 0 2, .int 0 0, .int 0 3]]

theorem reachable_numbers : numbers.Reachable := (Reachable.start [] false).run (by decide)

/-- What the truth of a number stands for. -/
def truthOf (v : Value) : Datum := .number (if v.asInt? = some 0 then 0 else 1)

theorem ranks_numbers :
    numbers.Ranks (some (.type .bool)) [.int 0 2, .int 0 0, .int 0 3] truthOf where
  scores := by
    have scored (n : Int64) (known : ∀ s, (applyKey (.type .bool) (.int 0 n)).runOn s =
        (.ok (.bool (n != 0)), s)) :
        numbers.ScoresAs (some (.type .bool)) (.int 0 n) (truthOf (.int 0 n)) := by
      refine fun s _ => ⟨_, s, known s, .refl _, ?_⟩
      by_cases zero : n = 0
      · subst zero
        exact .number (n := 0) rfl
      · have one : Value.asInt? (.bool (n != 0)) = some 1 := by simp [Value.asInt?, zero]
        have rank : truthOf (.int 0 n) = .number 1 := by simp [truthOf, Value.asInt?, zero]
        exact rank ▸ .number one
    simp only [List.forall_mem_cons]
    exact ⟨scored 2 fun _ => rfl, scored 0 fun _ => rfl, scored 3 fun _ => rfl,
      List.forall_mem_nil _⟩
  comparable _ _ _ _ := rfl

/-- `max` by truth finds the first number that is true, and so does sorting by truth in
reverse. -/
theorem extreme_eq_sorted_head_of_numbers :
    (∃ t, (call (.builtin .max) ⟨[.list ⟨0⟩], keyed (some (.type .bool))⟩).runOn numbers.session =
      (.ok (.int 0 2), t) ∧ numbers.heap.Adds t.heap) ∧
    ∃ l t, (call (.builtin .sorted) ⟨[.list ⟨0⟩], truestFirst⟩).runOn numbers.session =
        (.ok (.list l), t) ∧ numbers.heap.Adds t.heap ∧
      (getItem (.list l) (.int Tag.shared 0)).runOn t = (.ok (.int 0 2), t) := by
  have elements : numbers.heap.elements? (.list ⟨0⟩) =
      some ([.int 0 2, .int 0 0, .int 0 3].map .value) := rfl
  obtain ⟨best, front, back, split, found⟩ := reachable_numbers.extreme_eq_sorted_head
    (.value (List.mem_singleton_self (Value.list ⟨0⟩))) elements (List.cons_ne_nil _ _)
    (fun f hf => by cases hf; exact .shared rfl) ranks_numbers .greatest
  obtain ⟨max, sorted, worse, -⟩ := found numbers .refl (.refl _)
  have first : best = .int 0 2 := by
    cases front with
    | nil => exact (List.cons.inj split).1.symm
    | cons v front =>
      have hv : v = .int 0 2 := (List.cons.inj split).1.symm
      obtain ⟨t, beaten⟩ := worse v List.mem_cons_self
      have hb : best ∈ [.int 0 2, .int 0 0, .int 0 3] := split ▸ by simp
      subst hv
      simp only [List.mem_cons, List.not_mem_nil, or_false] at hb
      rcases hb with rfl | rfl | rfl
      · rfl
      all_goals cases beaten
  exact ⟨first ▸ max, first ▸ sorted⟩

end Program

end ObjectModel
