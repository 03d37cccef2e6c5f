import ObjectModel.Proofs.Iterator.Independent

/-!
# Iterators over iterators

A step of a zip makes a tuple of one item of each input, or comes to the end at the first
input that is exhausted. A step of an enumeration puts its counter before the item of its
input. It fails if the counter has left the words, after its input has been stepped.

Main statements: `Independent.next_zip_some`, `Independent.next_zip_none`,
`next_enumerate_some` and `of_next_enumerate`.
-/

namespace ObjectModel

open ObjectModel.Action

variable {kept : Value → Prop} {its : List Value} {s t u : Session} {r : Ref .cursor} {i : Nat}
  {items : Fin its.length → List (Value → Prop)} {row : List Value}

/-- Changes of a cursor that is not kept spare what is kept. -/
theorem Heap.Spares.of_touches {form : CursorKind} (touches : t.Touches (· = .cursor form r) u)
    (apart : ∀ v, kept v → Value.is (.cursor form r) v = false) (ordered : t.heap.Ordered) :
    t.heap.Spares kept u.heap where
  content v hv := touches.content v fun _ hw => hw ▸ apart v hv
  size := touches.size
  ordered := touches.ordered ordered

-- ---------------------------------------------------------------------------
-- Zips
-- ---------------------------------------------------------------------------

/-- Stepping the inputs leaves the zip where it is. -/
theorem touches_inputs (ordered : t.heap.Ordered) (hr : t.heap.cursor r = .zip its false) :
    t.Touches (·.level ≤ r.index + 1) ((advanceRow next its).runOn t).2 :=
  ordered.touches_advanceRow fun v hv => ordered r v (hr ▸ hv)

namespace Independent

variable (independent : Independent kept its items s) (ordered : t.heap.Ordered) (form : CursorKind)
  (hr : t.heap.cursor r = .zip its false)
  (apart : ∀ v, kept v → Value.is (.cursor form r) v = false)
  (run : Interleaved kept its s (fun _ => i) t)
include independent ordered hr apart run

/-- If all inputs have another item, a zip gives the row of these and steps each input once. -/
theorem next_zip_some (nonempty : its ≠ []) (inside : ∀ j, i < (items j).length) :
    ∃ tag row u, (next (.cursor form r)).runOn t = (.ok (some (.tuple tag row)), u) ∧
      IsRow items i row ∧ Interleaved kept its s (fun _ => i + 1) u ∧
      u.heap.cursor r = .zip its false := by
  obtain ⟨row, u, advanced, length, shows, run⟩ := independent.advanceRow_some
    (stepped_zero i ▸ run) (Nat.zero_le _) fun j _ => inside j
  rw [List.drop_zero] at advanced
  obtain ⟨tag, fresh, made⟩ := runOn_newTuple row u
  have touches := touches_inputs ordered hr
  rw [advanced] at touches
  have kept : u.heap.cursor r = .zip its false := touches.cursor_eq.trans hr
  have reached : u.Touches (· = .cursor form r) (u.reach fresh) := .of_reaches ⟨fresh, rfl⟩
  refine ⟨tag, row, u.reach fresh, ?_, ⟨length, fun j => shows j (Nat.zero_le _)⟩, ?_, kept⟩
  · rw [ordered.runOn_next, runOn_zip hr nonempty, runOn_bind_of_ok advanced]
    exact runOn_bind_of_ok made _
  · exact run.other (.of_touches reached apart (touches.ordered ordered))

/-- At the first exhausted input a zip comes to its end. The inputs before have been stepped once
more, and so has this one, but those after have not. -/
theorem next_zip_none (j : Fin its.length) (ended : (items j).length = i)
    (inside : ∀ j' < j, i < (items j').length) :
    ∃ u, (next (.cursor form r)).runOn t = (.ok none, u) ∧
      Interleaved kept its s (stepped (j.1 + 1) i) u ∧ u.heap.cursor r = .zip its true := by
  obtain ⟨u, advanced, run⟩ := independent.advanceRow_none
    (stepped_zero i ▸ run) j (Nat.zero_le _) ended fun j' lt _ => inside j' lt
  rw [List.drop_zero] at advanced
  have nonempty : its ≠ [] := fun empty => by
    have := j.2
    simp [empty] at this
  have touches := touches_inputs ordered hr
  rw [advanced] at touches
  have kept : u.heap.cursor r = .zip its false := touches.cursor_eq.trans hr
  have placed : u.Touches (· = .cursor form r) (u.place r (.zip its true)) :=
    .place rfl (kept ▸ rfl)
  refine ⟨u.place r (.zip its true), ?_, ?_, Heap.cursor_putCursor ..⟩
  · rw [ordered.runOn_next, runOn_zip hr nonempty, runOn_bind_of_ok advanced]
    rfl
  · exact run.other (.of_touches placed apart (touches.ordered ordered))

end Independent

-- ---------------------------------------------------------------------------
-- Enumerations
-- ---------------------------------------------------------------------------

variable {it v : Value} {counter : Option Int64} {n : Int64} {f : Fault}

/-- The item comes after the counter, which goes one on. -/
theorem next_enumerate_some (ordered : s.heap.Ordered) (form : CursorKind)
    (hr : s.heap.cursor r = .enumerate it (some n)) (item : (next it).runOn s = (.ok (some v), t)) :
    ∃ tag tag' u, (next (.cursor form r)).runOn s = (.ok (some (.tuple tag [.int tag' n, v])), u) ∧
      (t.place r (.enumerate it (Checked.narrow? (n.toInt + 1)))).Reaches u := by
  obtain ⟨u, hu⟩ : ∃ u, u = t.place r (.enumerate it (Checked.narrow? (n.toInt + 1))) := ⟨_, rfl⟩
  have written : (writeCursor r (.enumerate it (Checked.narrow? (n.toInt + 1)))).runOn t =
      (.ok (), u) := hu ▸ rfl
  obtain ⟨tag', fresh, number⟩ := runOn_newInt n u
  obtain ⟨tag, fresh', pair⟩ := runOn_newTuple [.int tag' n, v] (u.reach fresh)
  refine ⟨tag, tag', (u.reach fresh).reach fresh', ?_, hu ▸ ⟨fresh', rfl⟩⟩
  rw [ordered.runOn_next, runOn_enumerate hr, runOn_bind_of_ok item]
  simp only
  rw [runOn_bind_of_ok written, runOn_bind_of_ok number, runOn_bind_of_ok pair, runOn_pure]

theorem next_enumerate_overflow (ordered : s.heap.Ordered) (form : CursorKind)
    (hr : s.heap.cursor r = .enumerate it none) (item : (next it).runOn s = (.ok (some v), t)) :
    (next (.cursor form r)).runOn s = (.error (.cause .overflow), t) := by
  rw [ordered.runOn_next, runOn_enumerate hr, runOn_bind_of_ok item]
  rfl

theorem next_enumerate_none (ordered : s.heap.Ordered) (form : CursorKind)
    (hr : s.heap.cursor r = .enumerate it counter) (item : (next it).runOn s = (.ok none, t)) :
    (next (.cursor form r)).runOn s = (.ok none, t) := by
  rw [ordered.runOn_next, runOn_enumerate hr, runOn_bind_of_ok item]
  rfl

theorem next_enumerate_error (ordered : s.heap.Ordered) (form : CursorKind)
    (hr : s.heap.cursor r = .enumerate it counter) (item : (next it).runOn s = (.error f, t)) :
    (next (.cursor form r)).runOn s = (.error f, t) := by
  rw [ordered.runOn_next, runOn_enumerate hr, runOn_bind_of_error item]

/-- An enumeration that gives something has taken an item and counted it. -/
theorem of_next_enumerate (ordered : s.heap.Ordered) {form : CursorKind}
    (hr : s.heap.cursor r = .enumerate it counter)
    (run : (next (.cursor form r)).runOn s = (.ok (some v), u)) :
    ∃ n w t, counter = some n ∧ (next it).runOn s = (.ok (some w), t) ∧
      (t.place r (.enumerate it (Checked.narrow? (n.toInt + 1)))).Reaches u := by
  match item : (next it).runOn s, counter with
  | (.error f, t), _ => cases run.symm.trans (next_enumerate_error ordered form hr item)
  | (.ok none, t), _ => cases run.symm.trans (next_enumerate_none ordered form hr item)
  | (.ok (some w), t), none => cases run.symm.trans (next_enumerate_overflow ordered form hr item)
  | (.ok (some w), t), some n =>
    obtain ⟨tag, tag', u', run', reaches⟩ := next_enumerate_some ordered form hr item
    obtain ⟨-, rfl⟩ := Prod.mk.inj (run.symm.trans run')
    exact ⟨n, w, t, rfl, rfl, reaches⟩

end ObjectModel
