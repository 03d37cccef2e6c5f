import ObjectModel.Proofs.Newlines
import ObjectModel.Proofs.Program.Reading

/-!
# Text files that are read in pieces

A handle folds what each reading takes, and nothing across readings. So a text
file that has been read to its end has been shown as it would be by reading it at
once if no reading ended within a `\r\n`, and only then.

Main statement: `folded_unless_cut`.
-/

namespace ObjectModel

open ObjectModel.Action Utf8 File

/-- The text that readings have shown. -/
def shownText (record : List (List Value × List UInt8)) : List Char :=
  record.flatMap (·.1.flatMap Value.chars)

-- ---------------------------------------------------------------------------
-- Pieces
-- ---------------------------------------------------------------------------

/-- A text has been read up to a place, in pieces. -/
structure Pieces (front back : List Char) (record : List (List Value × List UInt8)) : Prop where
  /-- the text is shown with nothing left out, -/
  least : (foldNewlines front).length ≤ (shownText record).length
  /-- as it should be if no piece ended within a newline, -/
  whole : (∀ e ∈ record, ¬ CutsNewline (encode (front ++ back)) e.2) →
    shownText record = foldNewlines front
  /-- and else too long, unless the newline is still to be read on -/
  cut : ∀ e ∈ record, CutsNewline (encode (front ++ back)) e.2 →
    (foldNewlines front).length < (shownText record).length ∨ Splits front back
  /-- the last piece ended here -/
  reached : front = [] ∨ ∃ e ∈ record, e.2 = encode back

variable {front piece back : List Char} {record : List (List Value × List UInt8)}
  {vs : List Value}

theorem Pieces.nil (cs : List Char) : Pieces [] cs [] where
  least := Nat.le_refl 0
  whole _ := rfl
  cut _ he := by cases he
  reached := .inl rfl

theorem Pieces.step (h : Pieces front (piece ++ back) record)
    (shown : vs.flatMap Value.chars = foldNewlines piece) :
    Pieces (front ++ piece) back (record ++ [(vs, encode back)]) := by
  have text :
      shownText (record ++ [(vs, encode back)]) = shownText record ++ foldNewlines piece := by
    rw [shownText, List.flatMap_append, List.flatMap_singleton, shown]
    rfl
  have longer : (shownText (record ++ [(vs, encode back)])).length =
      (shownText record).length + (foldNewlines piece).length := by
    rw [text, List.length_append]
  have folded := length_foldNewlines_append_le front piece
  have least := h.least
  refine ⟨by omega, ?_, ?_, .inr ⟨_, List.mem_append_right _ (List.mem_singleton_self _), rfl⟩⟩
  · intro clean
    rw [List.append_assoc] at clean
    have before := fun e he => clean e (List.mem_append_left _ he)
    -- A newline between the pieces would have been cut by the last reading.
    have joined : ¬ Splits front piece := fun split => by
      rcases h.reached with rfl | ⟨e, he, rest⟩
      · cases split.1
      · exact before e he (rest ▸ cutsNewline_iff.2 (split.append_right back))
    rw [text, h.whole before, foldNewlines_append joined]
  · intro e he cuts
    rcases List.mem_append.1 he with old | new
    · rw [List.append_assoc] at cuts
      rcases h.cut e old cuts with long | split
      · exact .inl (by omega)
      · cases piece with
        | nil => exact .inr (by rwa [List.append_nil])
        | cons c piece =>
          have apart : Splits front (c :: piece) := split
          have := length_foldNewlines_append_of_splits apart
          exact .inl (by omega)
    · cases List.mem_singleton.1 new
      exact .inr (cutsNewline_iff.1 cuts)

theorem Pieces.shown_iff (h : Pieces front [] record) :
    shownText record = foldNewlines front ↔ ∀ e ∈ record, ¬ CutsNewline (encode front) e.2 := by
  have whole := h.whole
  have cut := h.cut
  rw [List.append_nil] at whole cut
  refine ⟨fun same e he cuts => ?_, whole⟩
  rcases cut e he cuts with long | split
  · rw [same] at long
    exact Nat.lt_irrefl _ long
  · cases split.2

-- ---------------------------------------------------------------------------
-- Runs
-- ---------------------------------------------------------------------------

/-- What a folding text handle shows is the text that it took, folded. -/
theorem File.Sound.shown_ok_iff {f : File} (sound : f.Sound .text) (folds : f.foldsNewlines = true)
    {tag : Tag} {raw : List UInt8} {v : Value} : f.shown tag raw = .ok v ↔
      ∃ piece, raw = encode piece ∧ v = .str tag (.ofChars (foldNewlines piece)) := by
  rw [sound.shown_text, File.present, Encoding.decodeUtf8]
  constructor
  · intro h
    cases decoded : Utf8.decode raw with
    | ok piece =>
      rw [decoded] at h
      simp only [folds] at h
      cases h
      exact ⟨piece, (decode_eq_ok_iff.1 decoded).symm, rfl⟩
    | error position =>
      rw [decoded] at h
      cases h
  · rintro ⟨piece, rfl, rfl⟩
    rw [decode_eq_ok_iff.2 rfl]
    simp only [folds]
    rfl

namespace Program

variable {cs : List Char} {r : Ref .file} {record : List (List Value × List UInt8)} {p : Program}
  {o : Reading} {got rest : List UInt8}

theorem chars_hands (o : Reading) (tag : Tag) (cs : List Char) :
    (o.hands (.str tag (.ofChars cs))).flatMap Value.chars = cs := by
  cases o with
  | next =>
    cases cs with
    | nil => rfl
    | cons c cs => exact List.append_nil _
  | _ => exact List.append_nil _

theorem Drains.pieces (drains : Drains (encode cs) .text r record p)
    (folds : (p.heap.file r).foldsNewlines = true) :
    ∃ front back, cs = front ++ back ∧ (p.heap.file r).pending = encode back ∧
      Pieces front back record := by
  induction drains with
  | opened given serves run =>
    refine ⟨[], cs, rfl, ?_, .nil cs⟩
    rw [perform_of_ok (runOn_bind_of_ok run _), heap, file_of_open given serves run]
  | @read record p o vs s before run ih =>
    obtain ⟨tag, got, rest, v, takes, shown, rfl, left⟩ :=
      Reading.of_runOn (f := p.heap.file r) rfl before.sound run
    rw [perform_of_ok run, heap, left] at folds ⊢
    obtain ⟨front, left', rfl, pending, pieces⟩ := ih folds
    obtain ⟨piece, rfl, rfl⟩ := (before.sound.shown_ok_iff folds).1 shown
    obtain ⟨back, rfl, rfl⟩ := exists_of_encode_eq_append (pending ▸ takes.append).symm
    refine ⟨front ++ piece, back, (List.append_assoc ..).symm, rfl, ?_⟩
    exact pieces.step (chars_hands o tag _)
  | other _ _ same ih =>
    rw [same] at folds ⊢
    exact ih folds

/-- What is left begins between two characters. -/
def Boundary (cs : List Char) (rest : List UInt8) : Prop :=
  ∃ front back, cs = front ++ back ∧ rest = encode back

/-- A reading that ends between two characters shows what it took, folded. -/
theorem Drains.runOn_text (drains : Drains (encode cs) .text r record p)
    (folds : (p.heap.file r).foldsNewlines = true)
    (takes : o.Takes (p.heap.file r).pending got rest) (boundary : Boundary cs rest) :
    ∃ piece tag t, got = encode piece ∧ (o.operation (.file .text r)).action.runOn p.session =
      (.ok (o.hands (.str tag (.ofChars (foldNewlines piece)))), t) ∧
      (t.heap.file r).pending = rest := by
  obtain ⟨front, left', rfl, pending, -⟩ := drains.pieces folds
  obtain ⟨front', back, split, rfl⟩ := boundary
  have content : encode front' = encode front ++ got := by
    have whole := congrArg encode split
    rw [encode_append, encode_append, ← pending, ← takes.append, ← List.append_assoc] at whole
    exact (List.append_cancel_right whole).symm
  obtain ⟨piece, -, rfl⟩ := exists_of_encode_eq_append content
  obtain ⟨tag, t, left, run⟩ := Reading.runOn_of_takes (f := p.heap.file r) rfl drains.sound takes
  have shown : (p.heap.file r).shown tag (encode piece) =
      .ok (.str tag (.ofChars (foldNewlines piece))) :=
    (drains.sound.shown_ok_iff folds).2 ⟨piece, rfl, rfl⟩
  rw [shown] at run
  exact ⟨piece, tag, t, rfl, run, congrArg File.pending left⟩

/-- Lines end between two characters. -/
theorem Drains.boundary (drains : Drains (encode cs) .text r record p)
    (folds : (p.heap.file r).foldsNewlines = true)
    (takes : o.Takes (p.heap.file r).pending got rest) (line : ∀ size, o ≠ .read size) :
    Boundary cs rest := by
  obtain ⟨front, left, rfl, pending, -⟩ := drains.pieces folds
  rw [pending] at takes
  cases takes with
  | readLine h | next h =>
    obtain ⟨piece, back, rfl, -, rfl⟩ := h.exists_eq
    exact ⟨front ++ piece, back, (List.append_assoc ..).symm, rfl⟩
  | all | count => exact absurd rfl (line _)

/-- The run goes on with such a reading. -/
theorem Drains.exists_read {piece back : List Char} (drains : Drains (encode cs) .text r record p)
    (folds : (p.heap.file r).foldsNewlines = true)
    (takes : o.Takes (p.heap.file r).pending (encode piece) (encode back))
    (boundary : Boundary cs (encode back)) :
    ∃ vs q, Drains (encode cs) .text r (record ++ [(vs, encode back)]) q ∧
      vs.flatMap Value.chars = foldNewlines piece ∧ (q.heap.file r).foldsNewlines = true ∧
      (q.heap.file r).pending = encode back := by
  obtain ⟨piece', tag, t, same, run, left⟩ := drains.runOn_text folds takes boundary
  cases encode_inj same
  obtain ⟨_, _, _, _, _, -, -, after⟩ :=
    Reading.of_runOn (f := p.heap.file r) rfl drains.sound run
  have more := drains.read run
  rw [left] at more
  refine ⟨_, _, more, chars_hands o tag _, ?_, ?_⟩
  · rw [perform_of_ok run, heap, after]
    exact folds
  · rw [perform_of_ok run]
    exact left

/-- Before the first reading, the whole text is left and is shown folded. -/
theorem Drains.runOn_whole (drains : Drains (encode cs) .text r [] p)
    (folds : (p.heap.file r).foldsNewlines = true) :
    ∃ tag t, (Reading.operation (.file .text r) (.read none)).action.runOn p.session =
      (.ok [.str tag (.ofChars (foldNewlines cs))], t) := by
  obtain ⟨front, back, rfl, pending, pieces⟩ := drains.pieces folds
  rcases pieces.reached with rfl | ⟨e, he, -⟩
  · have takes : (Reading.read none).Takes (p.heap.file r).pending (p.heap.file r).pending [] :=
      .all .absent
    obtain ⟨piece, tag, t, got, run, -⟩ :=
      drains.runOn_text folds takes ⟨back, [], (List.append_nil back).symm, rfl⟩
    cases encode_inj (pending.symm.trans got)
    exact ⟨tag, t, run⟩
  · cases he

/-- A file of text can be opened and read in any way: lines end between two
characters, and what ends there is shown folded. Read at once, the text is shown
with every `\r\n` as `\n`. Read in pieces to its end, it is shown so if and only if
none of them ended within a `\r\n`. -/
theorem folded_unless_cut (cs : List Char) :
    (∀ (p : Program) (name text : Text) (tag tag' : Tag), p.session.Serves name.chars (encode cs) →
      File.parseMode? text.chars = some .text → p.session.foldsNewlines = true →
      ∃ r q, q = p.perform (.callBuiltin "open" ⟨[.str tag name, .str tag' text], ∅⟩) ∧
        Drains (encode cs) .text r [] q ∧ (q.heap.file r).foldsNewlines = true) ∧
    ∀ r record p, Drains (encode cs) .text r record p → (p.heap.file r).foldsNewlines = true →
      (∀ (o : Reading) got rest, o.Takes (p.heap.file r).pending got rest →
        ((∀ size, o ≠ .read size) → Boundary cs rest) ∧
        (Boundary cs rest → ∃ piece tag t, got = encode piece ∧
          (o.operation (.file .text r)).action.runOn p.session =
            (.ok (o.hands (.str tag (.ofChars (foldNewlines piece)))), t) ∧
          (t.heap.file r).pending = rest)) ∧
      (record = [] → ∃ tag t,
        (Reading.operation (.file .text r) (.read none)).action.runOn p.session =
          (.ok [.str tag (.ofChars (foldNewlines cs))], t)) ∧
      ((p.heap.file r).pending = [] →
        (shownText record = foldNewlines cs ↔ ∀ e ∈ record, ¬ CutsNewline (encode cs) e.2)) := by
  refine ⟨fun p name text tag tag' serves parsed folds => ?_, fun r record p drains folds => ?_⟩
  · obtain ⟨r, q, opened, drains, kept⟩ := exists_drains serves parsed tag tag'
    exact ⟨r, q, opened, drains, kept.trans folds⟩
  · refine ⟨fun o got rest takes => ?_, ?_, fun finished => ?_⟩
    · exact ⟨drains.boundary folds takes, drains.runOn_text folds takes⟩
    · rintro rfl
      exact drains.runOn_whole folds
    · obtain ⟨front, back, rfl, pending, pieces⟩ := drains.pieces folds
      rw [finished] at pending
      rw [encode_eq_nil.1 pending.symm, List.append_nil] at *
      exact pieces.shown_iff

/-- A program that has opened a file of two lines with `\r\n` between them. -/
def returned : Program :=
  (start [⟨['f'], encode ['a', '\r', '\n', 'b'], none, none⟩] true).perform
    (.callBuiltin "open" ⟨[.str 0 (.ofChars ['f']), .str 0 (.ofChars ['r'])], ∅⟩)

theorem drains_returned : Drains (encode ['a', '\r', '\n', 'b']) .text ⟨0⟩ [] returned :=
  .opened rfl ⟨_, rfl, rfl, rfl, rfl⟩ rfl

/-- Line by line, the text is shown folded. -/
theorem folded_of_lines : ∃ record p, Drains (encode ['a', '\r', '\n', 'b']) .text ⟨0⟩ record p ∧
    (p.heap.file ⟨0⟩).pending = [] ∧ shownText record = ['a', '\n', 'b'] := by
  have line : Line ([0x61, 0x0D] ++ 0x0A :: [0x62]) ([0x61, 0x0D] ++ [0x0A]) [0x62] :=
    .ended (by decide)
  have first : Reading.readLine.Takes (encode ['a', '\r', '\n', 'b'])
      (encode ['a', '\r', '\n']) (encode ['b']) := .readLine line
  obtain ⟨vs, p, drains, -, folds, left⟩ := drains_returned.exists_read rfl first
    ⟨['a', '\r', '\n'], ['b'], rfl, rfl⟩
  have second : Reading.next.Takes (p.heap.file ⟨0⟩).pending (encode ['b']) (encode []) := by
    rw [left]
    exact .next (.last (by decide))
  obtain ⟨us, q, drains, -, folds, left⟩ := drains.exists_read folds second
    ⟨_, [], (List.append_nil _).symm, rfl⟩
  refine ⟨_, q, drains, left, ?_⟩
  have shown := ((folded_unless_cut ['a', '\r', '\n', 'b']).2 _ _ _ drains folds).2.2 left
  refine shown.2 ?_
  rintro e he ⟨before, after, -, rest⟩
  simp only [List.nil_append, List.cons_append, List.mem_cons, List.not_mem_nil, or_false] at he
  rcases he with rfl | rfl <;> cases rest

/-- In two pieces that both end between characters, it is not. -/
theorem not_folded_of_pieces :
    ∃ record p, Drains (encode ['a', '\r', '\n', 'b']) .text ⟨0⟩ record p ∧
      (p.heap.file ⟨0⟩).foldsNewlines = true ∧ (p.heap.file ⟨0⟩).pending = [] ∧
      (∀ e ∈ record, Boundary ['a', '\r', '\n', 'b'] e.2) ∧
      shownText record = ['a', '\r', '\n', 'b'] ∧
      foldNewlines ['a', '\r', '\n', 'b'] = ['a', '\n', 'b'] := by
  have first : (Reading.read (some (.int 0 2))).Takes (encode ['a', '\r', '\n', 'b'])
      (encode ['a', '\r']) (encode ['\n', 'b']) := .count (.count (n := 2) rfl (by decide))
  obtain ⟨vs, p, drains, chars, folds, left⟩ := drains_returned.exists_read rfl first
    ⟨['a', '\r'], ['\n', 'b'], rfl, rfl⟩
  have second : (Reading.read (some (.int 0 2))).Takes (p.heap.file ⟨0⟩).pending
      (encode ['\n', 'b']) (encode []) := by
    rw [left]
    exact .count (.count (n := 2) rfl (by decide))
  obtain ⟨us, q, drains, chars', folds, left⟩ := drains.exists_read folds second
    ⟨_, [], (List.append_nil _).symm, rfl⟩
  refine ⟨_, q, drains, folds, left, ?_, ?_, rfl⟩
  · intro e he
    simp only [List.nil_append, List.cons_append, List.mem_cons, List.not_mem_nil, or_false] at he
    rcases he with rfl | rfl
    · exact ⟨['a', '\r'], ['\n', 'b'], rfl, rfl⟩
    · exact ⟨_, [], (List.append_nil _).symm, rfl⟩
  · simp only [shownText, List.nil_append, List.cons_append, List.flatMap_cons, List.flatMap_nil,
      chars, chars', List.append_nil]
    rfl

end Program

end ObjectModel
