import ObjectModel.Proofs.Iteration
import ObjectModel.Proofs.Lines
import ObjectModel.Proofs.Program.Newlines

/-!
# Text files line by line

A text handle that is stepped to its end has shown the lines of what it would
have shown at once, whatever is done between two steps to anything but the
handle.

Main statement: `iterates_lines`.
-/

namespace ObjectModel

open ObjectModel.Action Utf8 File

-- ---------------------------------------------------------------------------
-- One step
-- ---------------------------------------------------------------------------

variable {s : Session} {r : Ref .file} {f : File} {cs : List Char}

theorem File.Sound.shown_encode (sound : f.Sound .text) (tag : Tag) (cs : List Char) :
    f.shown tag (encode cs) = .ok (.str tag (.ofChars (translate f.foldsNewlines cs))) := by
  rw [sound.shown_text, File.present, Encoding.decodeUtf8, decode_eq_ok_iff.2 rfl]
  rfl

/-- An empty line is no item, and every other line is one. -/
theorem item?_headD (folds : Bool) (tag : Tag) (cs : List Char) :
    Reading.item? (.str tag (.ofChars (translate folds ((lines cs).headD [])))) =
      (lines cs).head?.map fun line => .str tag (.ofChars (translate folds line)) := by
  cases cut : lines cs with
  | nil => cases folds <;> rfl
  | cons line more =>
    have some : line ≠ [] := (partition_lines cs).ne_nil line (cut ▸ List.mem_cons_self ..)
    have shown : (Text.ofChars (translate folds line)).isEmpty ≠ true := fun none =>
      some ((translate_eq_nil folds).1 (Text.isEmpty_iff.1 none))
    rw [List.headD_cons, Reading.item?, if_neg shown]
    rfl

/-- A step of a text handle shows the next line, if there is one. -/
theorem File.Sound.runOn_next (sound : f.Sound .text) (hf : s.heap.file r = f)
    (pending : f.pending = encode cs) :
    ∃ tag t back, (next (.file .text r)).runOn s = (.ok ((lines cs).head?.map fun line =>
        .str tag (.ofChars (translate f.foldsNewlines line))), t) ∧
      t.heap.file r = { f with pending := encode back } ∧ lines back = (lines cs).tail ∧
      (lines cs ≠ [] → (encode back).length < (encode cs).length) := by
  obtain ⟨back, line, later⟩ := exists_line_encode cs
  have taken : f.readLine =
      (.ok (encode ((lines cs).headD [])), { f with pending := encode back }) := by
    simp only [File.readLine, pending, splitLine_of_line line]
    exact sound.deliver ..
  obtain ⟨tag, t, left, run⟩ := runOn_readWith hf File.readLine
  have item := runOn_map Reading.item? run
  rw [taken] at left item
  have stepped : (next (.file .text r)).runOn s = (nextLine r).runOn s := rfl
  refine ⟨tag, t, back, ?_, left, later, fun more => ?_⟩
  · rw [stepped, Reading.nextLine_eq, item, Except.bind, sound.shown_encode]
    exact congrArg (fun found => (Except.ok found, t)) (item?_headD ..)
  · cases cut : lines cs with
    | nil => exact absurd cut more
    | cons first others =>
      have some : first ≠ [] := (partition_lines cs).ne_nil first (cut ▸ List.mem_cons_self ..)
      have bytes := List.length_pos_of_ne_nil (mt encode_eq_nil.1 some)
      rw [← line.append, cut, List.headD_cons, List.length_append]
      omega

-- ---------------------------------------------------------------------------
-- To the end
-- ---------------------------------------------------------------------------

/-- With a budget for all of the bytes, the lines that are left are collected. -/
theorem File.Sound.runOn_collect {budget : Nat} (sound : f.Sound .text) (hf : s.heap.file r = f)
    (pending : f.pending = encode cs) (hb : f.pending.length < budget) (acc : List Value) :
    ∃ vs t, (foldFrom collect budget (.file .text r) acc).runOn s = (.ok (vs.reverse ++ acc), t) ∧
      List.Forall₂ Value.Spells vs (lines (translate f.foldsNewlines cs)) := by
  induction budget generalizing s f cs acc with
  | zero => cases hb
  | succ budget ih =>
    obtain ⟨tag, t, back, run, left, later, shorter⟩ := sound.runOn_next hf pending
    rw [foldFrom, runOn_bind_of_ok run, lines_translate]
    cases cut : lines cs with
    | nil => exact ⟨[], t, rfl, .nil⟩
    | cons line more =>
      have less : (encode back).length < budget := by
        have := shorter (cut ▸ List.cons_ne_nil line more)
        rw [pending] at hb
        omega
      have after : File.Sound { f with pending := encode back } .text :=
        ⟨sound.mode_eq, sound.isOpen, sound.failure_eq⟩
      let item : Value := .str tag (.ofChars (translate f.foldsNewlines line))
      obtain ⟨vs, u, run', shown⟩ := ih after left rfl less (item :: acc)
      rw [lines_translate, later, cut] at shown
      refine ⟨item :: vs, u, ?_, .cons ⟨tag, rfl⟩ shown⟩
      refine (runOn_bind_of_ok (runOn_collectOne acc _ t) _).trans ?_
      rw [run', List.reverse_cons, List.append_assoc, List.singleton_append]

theorem File.Sound.runOn_items (sound : f.Sound .text) (hf : s.heap.file r = f)
    (pending : f.pending = encode cs) :
    ∃ vs t, (items (.file .text r)).runOn s = (.ok vs, t) ∧
      List.Forall₂ Value.Spells vs (lines (translate f.foldsNewlines cs)) := by
  have started : (iter (.file .text r)).runOn s = (.ok (.file .text r), s) := by
    have read : (readFile r).runOn s = (.ok f, s) := by
      rw [← hf]
      rfl
    rw [iter, runOn_bind_of_ok read, if_pos sound.isOpen, runOn_pure]
  have patient : f.pending.length < s.heap.patience (.file .text r) := by
    rw [Heap.patience, Heap.remaining, hf]
    exact Nat.lt_add_of_pos_right (by decide)
  obtain ⟨vs, t, run, shown⟩ := sound.runOn_collect hf pending patient []
  refine ⟨vs, t, ?_, shown⟩
  rw [items, runOn_bind_of_ok ((runOn_fold started []).trans run)]
  rw [List.append_nil, List.reverse_reverse, runOn_pure]

namespace Program

variable {content : List UInt8} {record : List (List Value × List UInt8)} {p : Program}
  {vs : List Value}

/-- Before the first reading, the whole content is left. -/
theorem Drains.pending_eq {mode : FileMode} (drains : Drains content mode r record p)
    (unread : record = []) : (p.heap.file r).pending = content := by
  induction drains with
  | opened given serves run =>
    rw [perform_of_ok (runOn_bind_of_ok run _), heap, file_of_open given serves run]
  | read => exact absurd unread (List.append_ne_nil_of_right_ne_nil _ (List.cons_ne_nil _ _))
  | other _ _ same ih => rw [same, ih unread]

/-- A program that steps a handle that it has not read from, and does what leaves
the handle as it is. What the steps have shown is listed. -/
inductive Iterates (content : List UInt8) (r : Ref .file) : List Value → Program → Prop
  | fresh {p : Program} : Drains content .text r [] p → Iterates content r [] p
  | next {p : Program} {vs us : List Value} {s : Session} : Iterates content r vs p →
    (Operation.next (.file .text r)).action.runOn p.session = (.ok us, s) →
    Iterates content r (vs ++ us) (p.perform (.next (.file .text r)))
  | other {p : Program} {vs : List Value} (o : Operation) : Iterates content r vs p →
    (p.perform o).heap.file r = p.heap.file r → Iterates content r vs (p.perform o)

/-- A text has been shown up to a place, in lines. -/
structure Shown (folds : Bool) (cs : List Char) (r : Ref .file) (vs : List Value) (back : List Char)
    (p : Program) : Prop where
  sound : (p.heap.file r).Sound .text
  folds_eq : (p.heap.file r).foldsNewlines = folds
  pending_eq : (p.heap.file r).pending = encode back
  /-- the lines that have been shown and those that are left are all the lines -/
  lines_eq : ∃ front, List.Forall₂ Value.Spells vs front ∧
    front ++ lines (translate folds back) = lines (translate folds cs)

variable {folds : Bool} {back : List Char} {us : List Value} {t : Session}

theorem Shown.fresh (drains : Drains (encode cs) .text r [] p)
    (folds_eq : (p.heap.file r).foldsNewlines = folds) : Shown folds cs r [] cs p where
  sound := drains.sound
  folds_eq := folds_eq
  pending_eq := drains.pending_eq rfl
  lines_eq := ⟨[], .nil, rfl⟩

/-- The next line can be shown, if one is left. -/
theorem Shown.exists_next (shown : Shown folds cs r vs back p) :
    ∃ tag t, (Operation.next (.file .text r)).action.runOn p.session =
        (.ok ((lines (translate folds back)).head?.map fun line =>
          Value.str tag (.ofChars line)).toList, t) ∧
      ∃ rest, t.heap.file r = { p.heap.file r with pending := encode rest } ∧
        lines (translate folds rest) = (lines (translate folds back)).tail := by
  obtain ⟨tag, t, rest, run, left, later, -⟩ := shown.sound.runOn_next rfl shown.pending_eq
  refine ⟨tag, t, ?_, rest, left, ?_⟩
  · rw [lines_translate, List.head?_map, Option.map_map]
    rw [shown.folds_eq] at run
    exact runOn_bind_of_ok run _
  · rw [lines_translate, lines_translate, later, List.map_tail]

theorem Shown.next (shown : Shown folds cs r vs back p)
    (run : (Operation.next (.file .text r)).action.runOn p.session = (.ok us, t)) :
    ∃ rest, Shown folds cs r (vs ++ us) rest (p.perform (.next (.file .text r))) := by
  obtain ⟨front, spelled, whole⟩ := shown.lines_eq
  obtain ⟨tag, t', run', rest, left, later⟩ := shown.exists_next
  cases run'.symm.trans run
  refine ⟨rest, ?_⟩
  rw [perform_of_ok run]
  refine ⟨?_, ?_, ?_, ?_⟩
  · rw [heap, left]
    exact ⟨shown.sound.mode_eq, shown.sound.isOpen, shown.sound.failure_eq⟩
  · rw [heap, left]
    exact shown.folds_eq
  · rw [heap, left]
  · refine ⟨front ++ (lines (translate folds back)).head?.toList, ?_, ?_⟩
    · refine List.rel_append spelled ?_
      cases (lines (translate folds back)).head? with
      | none => exact .nil
      | some line => exact .cons ⟨tag, rfl⟩ .nil
    · rw [later, List.append_assoc, ← whole]
      cases lines (translate folds back) <;> rfl

/-- However far the handle has been stepped, it has shown the first lines. -/
theorem Iterates.exists_shown (iterates : Iterates (encode cs) r vs p) :
    ∃ folds back, Shown folds cs r vs back p := by
  induction iterates with
  | fresh drains => exact ⟨_, cs, .fresh drains rfl⟩
  | next _ run ih =>
    obtain ⟨folds, back, shown⟩ := ih
    exact ⟨folds, shown.next run⟩
  | other _ _ same ih =>
    obtain ⟨folds, back, shown⟩ := ih
    refine ⟨folds, back, ?_, ?_, ?_, shown.lines_eq⟩
    · exact same ▸ shown.sound
    · exact same ▸ shown.folds_eq
    · exact same ▸ shown.pending_eq

/-- A file of text can be opened with or without its newlines folded. Iterating
the handle gives the lines of the text that reading it at once gives: cut after
each newline, none of them empty, and as many as there are newlines and perhaps
one more. Stepped by hand, the handle shows these lines one after the other and
then nothing more. -/
theorem iterates_lines (cs : List Char) (folds : Bool) :
    Partition (translate folds cs) (lines (translate folds cs)) ∧
    (lines (translate folds cs)).length =
      cs.count '\n' + (if cs ≠ [] ∧ cs.getLast? ≠ some '\n' then 1 else 0) ∧
    (∀ (p : Program) (name text : Text) (tag tag' : Tag), p.session.Serves name.chars (encode cs) →
      File.parseMode? text.chars = some .text → p.session.foldsNewlines = folds →
      ∃ r q, q = p.perform (.callBuiltin "open" ⟨[.str tag name, .str tag' text], ∅⟩) ∧
        Drains (encode cs) .text r [] q ∧ (q.heap.file r).foldsNewlines = folds) ∧
    (∀ r p, Drains (encode cs) .text r [] p → (p.heap.file r).foldsNewlines = folds →
      (∃ tag t, (Reading.operation (.file .text r) (.read none)).action.runOn p.session =
        (.ok [.str tag (.ofChars (translate folds cs))], t)) ∧
      ∃ vs t, (items (.file .text r)).runOn p.session = (.ok vs, t) ∧
        List.Forall₂ Value.Spells vs (lines (translate folds cs))) ∧
    ∀ r vs p, Iterates (encode cs) r vs p → (p.heap.file r).foldsNewlines = folds →
      ∃ front back tag t, List.Forall₂ Value.Spells vs front ∧
        front ++ back = lines (translate folds cs) ∧
        (Operation.next (.file .text r)).action.runOn p.session =
          (.ok (back.head?.map fun line => Value.str tag (.ofChars line)).toList, t) := by
  refine ⟨partition_lines _, ?_, ?_, ?_, ?_⟩
  · rw [lines_translate, List.length_map, length_lines]
  · intro p name text tag tag' serves parsed folds_eq
    obtain ⟨r, q, opened, drains, kept⟩ := exists_drains serves parsed tag tag'
    exact ⟨r, q, opened, drains, kept.trans folds_eq⟩
  · rintro r p drains rfl
    have whole := drains.pending_eq rfl
    refine ⟨?_, drains.sound.runOn_items rfl whole⟩
    have takes : (Reading.read none).Takes (p.heap.file r).pending (encode cs) [] :=
      whole ▸ .all .absent
    obtain ⟨tag, t, -, run⟩ := Reading.runOn_of_takes (f := p.heap.file r) rfl drains.sound takes
    rw [drains.sound.shown_encode] at run
    exact ⟨tag, t, run⟩
  · intro r vs p iterates folds_eq
    obtain ⟨_, back, shown⟩ := iterates.exists_shown
    cases shown.folds_eq.symm.trans folds_eq
    obtain ⟨front, spelled, whole⟩ := shown.lines_eq
    obtain ⟨tag, t, run, -⟩ := shown.exists_next
    exact ⟨front, _, tag, t, spelled, whole, run⟩

/-- Two lines with `\r\n` between them, by making a list of them and by the first
of two steps. -/
theorem iterates_two_lines :
    (∃ r q, q = returned ∧ Drains (encode ['a', '\r', '\n', 'b']) .text r [] q ∧
      (q.heap.file r).foldsNewlines = true) ∧
    (∃ vs t, (items (.file .text ⟨0⟩)).runOn returned.session = (.ok vs, t) ∧
      vs.map Value.chars = [['a', '\n'], ['b']]) ∧
    ∃ tag t, (Operation.next (.file .text ⟨0⟩)).action.runOn returned.session =
      (.ok [.str tag (.ofChars ['a', '\n'])], t) := by
  obtain ⟨-, -, opens, whole, steps⟩ := iterates_lines ['a', '\r', '\n', 'b'] true
  refine ⟨opens _ _ _ 0 0 ⟨_, rfl, rfl, rfl, rfl⟩ rfl rfl, ?_, ?_⟩
  · obtain ⟨vs, t, run, shown⟩ := (whole _ _ drains_returned rfl).2
    have two : List.Forall₂ Value.Spells vs [['a', '\n'], ['b']] := shown
    refine ⟨vs, t, run, ?_⟩
    obtain _ | ⟨first, _ | ⟨second, _ | _⟩⟩ := two
    rw [List.map_cons, List.map_singleton, first.chars, second.chars]
  · obtain ⟨front, back, tag, t, spelled, all, run⟩ := steps _ _ _ (.fresh drains_returned) rfl
    cases spelled
    cases all
    exact ⟨tag, t, run⟩

end Program

end ObjectModel
