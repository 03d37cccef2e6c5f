import Mathlib.Order.Bounds.Defs
import Mathlib.Order.Minimal
import ObjectModel.Proofs.Iterator.Composite
import ObjectModel.Proofs.Iterator.Sequence
import ObjectModel.Proofs.Program.Exhaustion

/-!
# Zips and enumerations in programs

A program makes a zip or an enumeration and steps it. In between it does other things. A
zip gives as many rows as its shortest input has items, and stops in the middle of a
row at the first exhausted input. An enumeration counts up from its start and never beyond the last
word.

Main statement: `Reachable.zip_enumerate`.
-/

namespace ObjectModel

open ObjectModel.Action World

/-- Making a zip of the values. -/
abbrev Operation.zip (xs : List Value) : Operation := .call (.type (.cursor .zip)) ⟨xs, ∅⟩

/-- Making an enumeration of the value that counts from the start. -/
abbrev Operation.enumerate (x : Value) (tag : Tag) (start : Int64) : Operation :=
  .call (.type (.cursor .enumerate)) ⟨[x, .int tag start], ∅⟩

namespace Program

variable {p q : Program} {kept : Value → Prop} {form : CursorKind} {r : Ref .cursor} {s t : Session}
  {its xs : List Value} {i m : Nat} {items : Fin its.length → List (Value → Prop)}

/-- The program steps the iterator so many times, and each time it yields something. In between it
does what it likes, as long as it leaves the iterator and the objects that are kept as they are. -/
inductive Drives (kept : Value → Prop) (form : CursorKind) (r : Ref .cursor) (p : Program) :
    Nat → Program → Prop
  | start : Drives kept form r p 0 p
  | step {i : Nat} {q : Program} {v : Value} {s : Session} : Drives kept form r p i q →
    (next (.cursor form r)).runOn q.session = (.ok (some v), s) →
    Drives kept form r p (i + 1) (q.perform (.next (.cursor form r)))
  | other {i : Nat} {q : Program} (o : Operation) : Drives kept form r p i q →
    (∀ v ∈ o.operands, q.Holds v) →
    (∀ v, kept v → (q.perform o).heap.content v = q.heap.content v) →
    (q.perform o).heap.cursor r = q.heap.cursor r → Drives kept form r p i (q.perform o)

/-- What a zip does that has given `i` rows, if its shortest input has `m` items. Each input has
been stepped `i` times. The zip gives the next row, or it comes to its end at the first exhausted
input. Then this input and those before it have been stepped once more, and those after it
have not. -/
structure Zips (kept : Value → Prop) (its : List Value) (s : Session)
    (items : Fin its.length → List (Value → Prop)) (m i : Nat) (z : Value) (t : Session) :
    Prop where
  le : i ≤ m
  inputs : Interleaved kept its s (fun _ => i) t
  row : i < m → ∃ tag row u, (next z).runOn t = (.ok (some (.tuple tag row)), u) ∧
    IsRow items i row ∧ Interleaved kept its s (fun _ => i + 1) u
  last : i = m → ∃ j u, (items j).length = m ∧ (∀ j' < j, m < (items j').length) ∧
    (next z).runOn t = (.ok none, u) ∧ (next z).runOn u = (.ok none, u) ∧
    Interleaved kept its s (fun j' => if j' ≤ j then m + 1 else m) u

/-- What an enumeration at a count makes of what its input gives. The end and the faults of the
input pass, an item comes after the count, and a count beyond the last word is a fault. -/
inductive Counted (k : Int) : Except Fault (Option Value) → Except Fault (Option Value) → Prop
  | ended : Counted k (.ok none) (.ok none)
  | failed (f : Fault) : Counted k (.error f) (.error f)
  | item (v : Value) (n : Int64) (tag tag' : Tag) : n.toInt = k →
    Counted k (.ok (some v)) (.ok (some (.tuple tag [.int tag' n, v])))
  | overflow (v : Value) : Int64.maxValue.toInt < k →
    Counted k (.ok (some v)) (.error (.cause .overflow))

-- ---------------------------------------------------------------------------
-- Making and stepping a cursor
-- ---------------------------------------------------------------------------

theorem Reachable.ordered (reachable : q.Reachable) : q.heap.Ordered := by
  obtain ⟨w, modeled⟩ := reachable.modeled
  exact modeled.models.ordered

theorem Reachable.size_le (reachable : q.Reachable) {o : Operation}
    (held : ∀ v ∈ o.operands, q.Holds v) :
    q.heap.cursors.size ≤ (q.perform o).heap.cursors.size := by
  obtain ⟨w, modeled⟩ := reachable.modeled
  obtain ⟨w', le, modeled'⟩ := modeled.mark.perform fun v hv => modeled.mark.has (held v hv)
  exact size_le_of_mark modeled.models le modeled'.models

theorem Drives.held (drives : Drives kept form r p i q) (reachable : p.Reachable)
    (handed : .cursor form r ∈ p.values) : q.Reachable ∧ .cursor form r ∈ q.values := by
  induction drives with
  | start => exact ⟨reachable, handed⟩
  | step _ _ ih =>
    refine ⟨ih.1.perform _ (List.forall_mem_singleton.2 (.value ih.2)), ?_⟩
    exact mem_values_perform _ ih.2
  | other o _ held _ _ ih => exact ⟨ih.1.perform o held, mem_values_perform o ih.2⟩

/-- A call makes the cursor in a later session and hands it to the program. -/
structure Opens (p : Program) (o : Operation) (s : Session) (form : CursorKind) (c : Cursor)
    (r : Ref .cursor) : Prop where
  reachable : (p.perform o).Reachable
  handed : .cursor form r ∈ (p.perform o).values
  place : (p.perform o).heap.cursor r = c
  new : s.heap.cursors.size ≤ r.index
  spared : ∀ kept, (∀ v, kept v → s.heap.Stores v) → s.heap.Spares kept (p.perform o).heap

theorem Reachable.opens (reachable : p.Reachable) {f : Value} {a : Arguments} {c : Cursor}
    (held : ∀ v ∈ f :: a.values, p.Holds v)
    (made : (call f a).runOn p.session = (newCursor form c).runOn s) :
    ∃ r s', (call f a).runOn p.session = (.ok (.cursor form r), s') ∧
      Opens p (.call f a) s form c r := by
  obtain ⟨s', hs⟩ : ∃ s' : Session, s' =
      { s with heap := { s.heap with cursors := s.heap.cursors.push c } } := ⟨_, rfl⟩
  have run : (call f a).runOn p.session = (.ok (.cursor form ⟨s.heap.cursors.size⟩), s') :=
    made.trans (hs ▸ rfl)
  have performed : p.perform (.call f a) =
      ⟨s', [.cursor form ⟨s.heap.cursors.size⟩] ++ p.values⟩ :=
    perform_of_ok (runOn_bind_of_ok run _)
  have after : (p.perform (.call f a)).Reachable := reachable.perform _ held
  have adds : s.heap.Adds s'.heap := hs ▸ { Heap.Adds.refl s.heap with cursors := .push _ _ }
  have ordered := after.ordered
  rw [performed] at ordered
  refine ⟨⟨s.heap.cursors.size⟩, s', run, after, ?_, ?_, Nat.le_refl _, fun kept old => ?_⟩
  · exact performed ▸ List.mem_cons_self ..
  · exact performed ▸ hs ▸ Store.get_push_size ..
  · exact performed ▸ ⟨fun v hv => adds.content_eq (old v hv), adds.cursors.1, ordered⟩

-- ---------------------------------------------------------------------------
-- Zips
-- ---------------------------------------------------------------------------

theorem runOn_call_zip (opened : (xs.mapM iter).runOn p.session = (.ok its, s)) :
    (call (.type (.cursor .zip)) ⟨xs, ∅⟩).runOn p.session =
      (newCursor .zip (.zip its false)).runOn s := by
  have plain : (liftM ((⟨xs, ∅⟩ : Arguments).noKeywords "zip") : Action Unit).runOn p.session =
      (.ok (), p.session) := rfl
  exact (runOn_bind_of_ok plain _).trans (runOn_bind_of_ok opened _)

/-- Without inputs there is nothing to give. -/
theorem next_zip_nil (hr : s.heap.cursor r = .zip [] false) :
    (next (.cursor form r)).runOn s = (.ok none, s) := by
  have finished : (s.heap.cursor r).isOver = true := hr ▸ rfl
  exact (runOn_next form r s).trans (runOn_advanceCursor_of_isOver finished)

theorem Drives.zip_nil (drives : Drives kept form r p i q)
    (place : p.heap.cursor r = .zip [] false) : q.heap.cursor r = .zip [] false := by
  induction drives with
  | start => exact place
  | step _ run ih => cases run.symm.trans (next_zip_nil ih)
  | other _ _ _ _ same ih => exact same.trans ih

/-- The shortest input comes first to its end. -/
theorem exists_first {k : Nat} {length : Fin k → Nat} (least : IsLeast (Set.range length) m) :
    ∃ j, length j = m ∧ ∀ j' < j, m < length j' := by
  obtain ⟨⟨j, hj⟩, le⟩ := least
  obtain ⟨j, minimal⟩ := exists_minimal_of_wellFoundedLT (fun j => length j = m) ⟨j, hj⟩
  refine ⟨j, minimal.prop, fun j' lt => (le ⟨j', rfl⟩).lt_of_ne fun same => ?_⟩
  exact minimal.not_lt same.symm lt

/-- A zip and its inputs after `i` rows. -/
structure InLockstep (kept : Value → Prop) (its : List Value) (s : Session) (r : Ref .cursor)
    (i : Nat) (t : Session) : Prop where
  place : t.heap.cursor r = .zip its false
  inputs : Interleaved kept its s (fun _ => i) t

section Zips

variable (independent : Independent kept its items s)
  (least : IsLeast (Set.range fun j => (items j).length) m)
  (apart : ∀ v, kept v → Value.is (.cursor form r) v = false)
include independent least apart

/-- Before the shortest input is exhausted, a step gives a row and keeps the lockstep. -/
theorem InLockstep.row (lockstep : InLockstep kept its s r i t) (ordered : t.heap.Ordered)
    (lt : i < m) : ∃ tag row u, (next (.cursor form r)).runOn t = (.ok (some (.tuple tag row)), u) ∧
      IsRow items i row ∧ InLockstep kept its s r (i + 1) u := by
  have nonempty : its ≠ [] := by
    rintro rfl
    obtain ⟨⟨j, -⟩, -⟩ := least
    exact j.elim0
  obtain ⟨tag, row, u, next, isRow, inputs, place⟩ := independent.next_zip_some ordered form
    lockstep.place apart lockstep.inputs nonempty fun j => lt.trans_le (least.2 ⟨j, rfl⟩)
  exact ⟨tag, row, u, next, isRow, place, inputs⟩

theorem InLockstep.last (lockstep : InLockstep kept its s r m t) (ordered : t.heap.Ordered) :
    ∃ j u, (items j).length = m ∧ (∀ j' < j, m < (items j').length) ∧
      (next (.cursor form r)).runOn t = (.ok none, u) ∧
      (next (.cursor form r)).runOn u = (.ok none, u) ∧
      Interleaved kept its s (fun j' => if j' ≤ j then m + 1 else m) u := by
  obtain ⟨j, ended, before⟩ := exists_first least
  obtain ⟨u, run, inputs, place⟩ := independent.next_zip_none ordered form lockstep.place apart
    lockstep.inputs j ended before
  have finished : (u.heap.cursor r).isOver = true := by rw [place]; rfl
  have counts : stepped (j.1 + 1) m = fun j' => if j' ≤ j then m + 1 else m :=
    funext fun j' => if_congr Nat.lt_succ_iff rfl rfl
  refine ⟨j, u, ended, before, run, ?_, counts ▸ inputs⟩
  exact (runOn_next form r u).trans (runOn_advanceCursor_of_isOver finished)

/-- The lockstep lasts as long as the zip gives rows, and these are no more than there are. -/
theorem Drives.inLockstep (drives : Drives kept form r p i q) (reachable : p.Reachable)
    (handed : .cursor form r ∈ p.values) (start : InLockstep kept its s r 0 p.session) :
    i ≤ m ∧ InLockstep kept its s r i q.session := by
  induction drives with
  | start => exact ⟨Nat.zero_le _, start⟩
  | @step i q v t drives run ih =>
    obtain ⟨le, lockstep⟩ := ih
    have ordered := (drives.held reachable handed).1.ordered
    obtain lt | rfl := le.lt_or_eq
    · obtain ⟨tag, row, u, run', -, lockstep⟩ := lockstep.row independent least apart ordered lt
      obtain ⟨-, rfl⟩ := Prod.mk.inj (run.symm.trans run')
      exact ⟨lt, perform_next run' ▸ lockstep⟩
    · -- A zip that has given all its rows yields nothing.
      obtain ⟨j, u, -, -, run', -⟩ := lockstep.last independent least apart ordered
      cases run.symm.trans run'
  | @other i q o drives held content same ih =>
    obtain ⟨le, lockstep⟩ := ih
    obtain ⟨reachable, -⟩ := drives.held reachable handed
    have spares : q.heap.Spares kept (q.perform o).heap :=
      ⟨content, reachable.size_le held, (reachable.perform o held).ordered⟩
    exact ⟨le, same.trans lockstep.place, lockstep.inputs.other spares⟩

theorem Drives.zips (drives : Drives kept form r p i q) (reachable : p.Reachable)
    (handed : .cursor form r ∈ p.values) (start : InLockstep kept its s r 0 p.session) :
    Zips kept its s items m i (.cursor form r) q.session := by
  obtain ⟨le, lockstep⟩ := drives.inLockstep independent least apart reachable handed start
  have ordered := (drives.held reachable handed).1.ordered
  refine ⟨le, lockstep.inputs, fun lt => ?_, ?_⟩
  · obtain ⟨tag, row, u, run, isRow, lockstep⟩ := lockstep.row independent least apart ordered lt
    exact ⟨tag, row, u, run, isRow, lockstep.inputs⟩
  · rintro rfl
    exact lockstep.last independent least apart ordered

end Zips

-- ---------------------------------------------------------------------------
-- Enumerations
-- ---------------------------------------------------------------------------

variable {it x : Value} {first : Int64} {tag : Tag} {k : Int}

theorem runOn_call_enumerate (opened : (iter x).runOn p.session = (.ok it, s)) :
    (call (.type (.cursor .enumerate)) ⟨[x, .int tag first], ∅⟩).runOn p.session =
      (newCursor .enumerate (.enumerate it (some first))).runOn s :=
  runOn_bind_of_ok opened _

/-- An enumeration gives the count as long as this is a word. -/
theorem counted_next (ordered : s.heap.Ordered) (form : CursorKind)
    (hr : s.heap.cursor r = .enumerate it (Checked.narrow? k)) (low : Int64.minValue.toInt ≤ k) :
    Counted k ((next it).runOn s).1 ((next (.cursor form r)).runOn s).1 := by
  match item : (next it).runOn s with
  | (.error f, t) =>
    rw [next_enumerate_error ordered form hr item]
    exact .failed f
  | (.ok none, t) =>
    rw [next_enumerate_none ordered form hr item]
    exact .ended
  | (.ok (some v), t) =>
    cases counter : Checked.narrow? k with rw [counter] at hr
    | none =>
      have beyond : ¬ Checked.Fits k := fun fits => by simp [Checked.narrow?, fits] at counter
      rw [next_enumerate_overflow ordered form hr item]
      refine .overflow v (Int.not_le.1 fun le => ?_)
      exact beyond ⟨low, Int.lt_of_le_of_lt le (Int64.toInt_lt _)⟩
    | some n =>
      obtain ⟨tag, tag', u, run, -⟩ := next_enumerate_some ordered form hr item
      rw [run]
      exact .item v n tag tag' (Checked.toInt_of_narrow? counter)

/-- The counter is as many ahead of the start as items have been given. -/
theorem Drives.counter (drives : Drives kept form r p i q) (reachable : p.Reachable)
    (handed : .cursor form r ∈ p.values) (place : p.heap.cursor r = .enumerate it (some first)) :
    q.heap.cursor r = .enumerate it (Checked.narrow? (first.toInt + i)) := by
  induction drives with
  | start => exact place.trans (by rw [Int.natCast_zero, Int.add_zero, Checked.narrow?_toInt])
  | @step i q v t drives run ih =>
    have ordered := (drives.held reachable handed).1.ordered
    obtain ⟨n, w, u, counter, -, fresh, rfl⟩ := of_next_enumerate ordered ih run
    have count : n.toInt + 1 = first.toInt + (i + 1 : Nat) := by
      rw [Checked.toInt_of_narrow? counter, Int.natCast_succ, Int.add_assoc]
    rw [← count, perform_next run]
    exact Heap.cursor_putCursor ..
  | other o _ _ _ same ih => exact same.trans ih

/-- An enumeration steps its input once for each item that it gives. -/
theorem Drives.enumerated (drives : Drives kept form r p i q) (reachable : p.Reachable)
    (handed : .cursor form r ∈ p.values) (place : p.heap.cursor r = .enumerate it (some first))
    (apart : ∀ v, kept v → Value.is (.cursor form r) v = false)
    (begun : Interleaved kept [it] s (fun _ => 0) p.session) :
    Interleaved kept [it] s (fun _ => i) q.session := by
  induction drives with
  | start => exact begun
  | @step i q v t drives run ih =>
    have ordered := (drives.held reachable handed).1.ordered
    have counter := drives.counter reachable handed place
    obtain ⟨n, w, u, -, item, reaches⟩ := of_next_enumerate ordered counter run
    have once : Function.update (fun _ : Fin [it].length => i) 0 (i + 1) = fun _ => i + 1 :=
      funext fun j => Subsingleton.elim (0 : Fin 1) j ▸ Function.update_self ..
    have older := ordered r it (by rw [counter]; exact List.mem_singleton_self it)
    have touches := ordered.touches_next older
    rw [item] at touches
    -- After the step of the input the enumeration alone has changed.
    have same : u.heap.cursor r = .enumerate it _ := touches.cursor_eq.trans counter
    have moved : u.Touches (· = .cursor form r) t :=
      trans_of (Session.Touches (· = .cursor form r)) (.place rfl (same ▸ rfl))
        (.of_reaches reaches)
    rw [perform_next run, ← once]
    exact (ih.step 0 item).other (.of_touches moved apart (touches.ordered ordered))
  | @other i q o drives held content _ ih =>
    obtain ⟨reachable, -⟩ := drives.held reachable handed
    exact ih.other ⟨content, reachable.size_le held, (reachable.perform o held).ordered⟩

-- ---------------------------------------------------------------------------
-- Programs
-- ---------------------------------------------------------------------------

/-- What is not a cursor of a heap is apart from those that it has. -/
theorem is_cursor_of_stores {h : Heap} {v : Value} (stores : h.Stores v)
    (new : h.cursors.size ≤ r.index) : Value.is (.cursor form r) v = false := by
  refine Bool.eq_false_iff.2 fun same => Nat.not_le.2 ?_ new
  exact stores .cursor r.index (Value.is_iff.1 same).symm

/-- A zip of independent iterators gives as many rows as the shortest of them has items. Then it
comes to its end at the first that is exhausted, and none after that is stepped. An enumeration puts
before each item how many were before it, counted from the start, and fails when this is no word. -/
theorem Reachable.zip_enumerate (reachable : p.Reachable) :
    (∀ xs its s, (∀ x ∈ xs, p.Holds x) → (xs.mapM iter).runOn p.session = (.ok its, s) →
      ∃ z t, (call (.type (.cursor .zip)) ⟨xs, ∅⟩).runOn p.session = (.ok (.cursor .zip z), t) ∧
        (xs = [] → ∀ i q, Drives (fun _ => False) .zip z (p.perform (.zip xs)) i q →
          (next (.cursor .zip z)).runOn q.session = (.ok none, q.session)) ∧
        ∀ kept items m, (∀ v, kept v → s.heap.Stores v) → Independent kept its items s →
          IsLeast (Set.range fun j => (items j).length) m →
          ∀ i q, Drives kept .zip z (p.perform (.zip xs)) i q →
            Zips kept its s items m i (.cursor .zip z) q.session) ∧
    ∀ x it tag start s, p.Holds x → p.Holds (.int tag start) →
      (iter x).runOn p.session = (.ok it, s) →
      ∃ e t, (call (.type (.cursor .enumerate)) ⟨[x, .int tag start], ∅⟩).runOn p.session =
          (.ok (.cursor .enumerate e), t) ∧
        (∀ i q, Drives (fun _ => False) .enumerate e (p.perform (.enumerate x tag start)) i q →
          Counted (start.toInt + i) ((next it).runOn q.session).1
            ((next (.cursor .enumerate e)).runOn q.session).1) ∧
        ∀ kept items, (∀ v, kept v → s.heap.Stores v) →
          Independent kept [it] (fun _ => items) s →
          ∀ i q, Drives kept .enumerate e (p.perform (.enumerate x tag start)) i q →
            ∃ found u, (next it).runOn q.session = (.ok found, u) ∧
              Option.Rel (fun item v => item v) items[i]? found := by
  constructor
  · intro xs its s held opened
    have held : ∀ v ∈ Value.type (.cursor .zip) :: (⟨xs, ∅⟩ : Arguments).values, p.Holds v :=
      List.forall_mem_cons.2
        ⟨.shared rfl, fun v hv => held v (by simpa [Arguments.values] using hv)⟩
    obtain ⟨z, t, run, opens⟩ := reachable.opens held (runOn_call_zip opened)
    refine ⟨z, t, run, ?_, fun kept items m old independent least i q drives => ?_⟩
    · rintro rfl i q drives
      obtain ⟨same, -⟩ := Prod.mk.inj opened
      cases same
      exact next_zip_nil (drives.zip_nil opens.place)
    · have apart (v : Value) (hv : kept v) : Value.is (.cursor .zip z) v = false :=
        is_cursor_of_stores (old v hv) opens.new
      refine drives.zips independent least apart opens.reachable opens.handed ⟨opens.place, ?_⟩
      exact Interleaved.start.other (opens.spared kept old)
  · intro x it tag start s hx hn opened
    have held : ∀ v ∈ Value.type (.cursor .enumerate) ::
        (⟨[x, .int tag start], ∅⟩ : Arguments).values, p.Holds v := by
      refine List.forall_mem_cons.2 ⟨.shared rfl, List.forall_mem_cons.2 ⟨hx, ?_⟩⟩
      exact List.forall_mem_singleton.2 hn
    obtain ⟨e, t, run, opens⟩ := reachable.opens held (runOn_call_enumerate opened)
    refine ⟨e, t, run, fun i q drives => ?_, fun kept items old independent i q drives => ?_⟩
    · have ordered := (drives.held opens.reachable opens.handed).1.ordered
      refine counted_next ordered _ (drives.counter opens.reachable opens.handed opens.place) ?_
      exact (Int64.le_toInt start).trans (Int.le_add_of_nonneg_right (Int.natCast_nonneg i))
    · have apart (v : Value) (hv : kept v) : Value.is (.cursor .enumerate e) v = false :=
        is_cursor_of_stores (old v hv) opens.new
      have inputs := drives.enumerated opens.reachable opens.handed opens.place apart
        (Interleaved.start.other (opens.spared kept old))
      exact independent (fun _ => i) q.session inputs 0

/-- A program with lists of two items and of one, and the greatest word. -/
def uneven : Program :=
  (((start [] false).perform (.list [.none, .none])).perform (.list [.none])).perform
    (.int Int64.maxValue)

theorem reachable_uneven : uneven.Reachable := by
  refine .perform _ (.perform _ (.perform _ (.start [] false) ?_) ?_) nofun
  · exact List.forall_mem_cons.2 ⟨.shared rfl, List.forall_mem_singleton.2 (.shared rfl)⟩
  · exact List.forall_mem_singleton.2 (.shared rfl)

/-- Iterators over the two lists are independent. -/
theorem independent_uneven : ∃ s, ([.list ⟨0⟩, .list ⟨1⟩].mapM iter).runOn uneven.session =
      (.ok [.cursor .list ⟨0⟩, .cursor .list ⟨1⟩], s) ∧
    Independent s.heap.Stores [.cursor .list ⟨0⟩, .cursor .list ⟨1⟩]
      (fun j => List.replicate (2 - j.1) fun v => v.Shows (.value .none)) s := by
  have opened : ∃ s, s.heap.cursors.size = 2 ∧ s.heap.lists.size = 2 ∧
      ([.list ⟨0⟩, .list ⟨1⟩].mapM iter).runOn uneven.session =
        (.ok [.cursor .list ⟨0⟩, .cursor .list ⟨1⟩], s) := ⟨_, rfl, rfl, rfl⟩
  obtain ⟨s, cursors, lists, opened⟩ := opened
  have list (i : Nat) (hi : i < 2) : s.heap.Stores (.list ⟨i⟩) := by
    rintro shelf j ⟨⟩
    exact hi.trans_eq lists.symm
  have cursor (i : Nat) (hi : i < 2) : s.heap.Stores (.cursor .list ⟨i⟩) := by
    rintro shelf j ⟨⟩
    exact hi.trans_eq cursors.symm
  have holds (j : Nat) (x : Value) (hx : [Value.list ⟨0⟩, .list ⟨1⟩][j]? = some x) :
      uneven.session.heap.elements? x = some (List.replicate (2 - j) (.value .none)) := by
    match j with
    | 0 | 1 =>
      cases hx
      rfl
  have independent : Independent s.heap.Stores _ _ s := independent_of_elements opened holds
    (List.forall_mem_cons.2
      ⟨cursor 0 Nat.two_pos, List.forall_mem_singleton.2 (cursor 1 Nat.one_lt_two)⟩)
    (List.forall_mem_cons.2
      ⟨list 0 Nat.two_pos, List.forall_mem_singleton.2 (list 1 Nat.one_lt_two)⟩)
  simp only [List.map_replicate] at independent
  exact ⟨s, opened, independent⟩

/-- The lists give one row. The second item of the first list cannot be counted. -/
theorem zip_enumerate_of_uneven :
    (∃ its s items z, ([.list ⟨0⟩, .list ⟨1⟩].mapM iter).runOn uneven.session = (.ok its, s) ∧
      Zips s.heap.Stores its s items 1 0 (.cursor .zip z)
        (uneven.perform (.zip [.list ⟨0⟩, .list ⟨1⟩])).session) ∧
    ∃ it e q, Drives (fun _ => False) .enumerate e
        (uneven.perform (.enumerate (.list ⟨0⟩) 1 Int64.maxValue)) 1 q ∧
      Counted (Int64.maxValue.toInt + 1) ((next it).runOn q.session).1
        ((next (.cursor .enumerate e)).runOn q.session).1 := by
  have values : uneven.values = [.int 1 Int64.maxValue, .list ⟨1⟩, .list ⟨0⟩] := rfl
  have number : uneven.Holds (.int 1 Int64.maxValue) := .value (values ▸ by simp)
  have long : uneven.Holds (.list ⟨0⟩) := .value (values ▸ by simp)
  have short : uneven.Holds (.list ⟨1⟩) := .value (values ▸ by simp)
  obtain ⟨zips, enumerates⟩ := reachable_uneven.zip_enumerate
  constructor
  · obtain ⟨s, opened, independent⟩ := independent_uneven
    have held : ∀ x ∈ [Value.list ⟨0⟩, .list ⟨1⟩], uneven.Holds x :=
      List.forall_mem_cons.2 ⟨long, List.forall_mem_singleton.2 short⟩
    have least : IsLeast (Set.range fun j : Fin 2 => 2 - j.1) 1 := by
      refine ⟨⟨1, rfl⟩, ?_⟩
      rintro _ ⟨j, rfl⟩
      show 1 ≤ 2 - j.1
      omega
    obtain ⟨z, t, -, -, zips⟩ := zips _ _ s held opened
    refine ⟨_, s, _, z, opened, zips _ _ 1 (fun _ => id) independent ?_ 0 _ .start⟩
    simp only [List.length_replicate]
    exact least
  · obtain ⟨e, t, run, counts, -⟩ :=
      enumerates (.list ⟨0⟩) (.cursor .list ⟨0⟩) 1 Int64.maxValue _ long number rfl
    obtain rfl : ⟨1⟩ = e := by
      have made : ∃ t, (call (.type (.cursor .enumerate))
          ⟨[.list ⟨0⟩, .int 1 Int64.maxValue], ∅⟩).runOn uneven.session =
        (.ok (.cursor .enumerate ⟨1⟩), t) := ⟨_, rfl⟩
      obtain ⟨t', made⟩ := made
      cases made.symm.trans run
      rfl
    have drives : Drives (fun _ => False) .enumerate ⟨1⟩
      (uneven.perform (.enumerate (.list ⟨0⟩) 1 Int64.maxValue)) 1 _ := .step .start rfl
    exact ⟨_, _, _, drives, counts 1 _ drives⟩

end Program

end ObjectModel
