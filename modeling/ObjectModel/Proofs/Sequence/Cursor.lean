import ObjectModel.Proofs.Content
import ObjectModel.Proofs.Equality.Heap
import ObjectModel.Proofs.Iteration
import ObjectModel.Proofs.Moves
import ObjectModel.Proofs.Range.Operations
import ObjectModel.Proofs.Slice.Bound

/-!
# Cursors over sequences

What a cursor over a sequence has still to show is known from its place and from
the elements of the sequence, unless it has copied those. A step shows the first
of it and leaves the others ahead. So a cursor from either end shows all elements
as long as the sequence keeps them.

Main statements: `runOn_advance_cons`, `runOn_advance_nil`, `runOn_next_ahead` and
`yieldsElements`.
-/

namespace ObjectModel

open ObjectModel.Action

/-- The value is the item, a text of the character, or an integer for the byte. -/
def Value.Shows (v : Value) : Element → Prop
  | .value w => v = w
  | .char c => v.Spells [c]
  | .byte b => v.IsInt b.toNat

theorem Value.Shows.equals {v w : Value} {e : Element} (hv : v.Shows e) (hw : w.Shows e)
    (h : Heap) : h.equals v w = true := by
  cases e with
  | value u =>
    cases hv
    cases hw
    exact h.equals_refl v
  | char c =>
    obtain ⟨tag, rfl⟩ := hv
    obtain ⟨tag', rfl⟩ := hw
    simp [Heap.equals, Heap.depth, Heap.equalsAt, Value.equalsWith, Value.leafEquals]
  | byte b =>
    obtain ⟨tag, n, rfl, hn⟩ := hv
    obtain ⟨tag', n', rfl, hn'⟩ := hw
    cases Int64.toInt_inj.1 (hn.trans hn'.symm)
    simp [Heap.equals, Heap.depth, Heap.equalsAt, Value.equalsWith]

-- ---------------------------------------------------------------------------
-- What is ahead of a cursor
-- ---------------------------------------------------------------------------

/-- The sequence that a cursor reads as it goes. -/
def Cursor.reads? : Cursor → Option Value
  | .list l _ _ | .backwardList l _ => some (.list l)
  | .backwardBytearray r _ => some (.bytearray r)
  | _ => none

/-- The elements below a bound, last first, if it does not leave the sequence. -/
def backwardFrom (bound : Nat) (es : List Element) : List Element :=
  if bound ≤ es.length then (es.take bound).reverse else []

/-- What a cursor over a sequence has still to show. -/
def Heap.ahead? (h : Heap) : Cursor → Option (List Element)
  | .list l n done => (h.elements? (.list l)).map fun es => if done then [] else es.drop n
  | .items rest => some (rest.map .value)
  | .bytes rest => some (rest.map .byte)
  | .text _ rest | .backwardText rest => some (rest.map .char)
  | .backwardList l n => (h.elements? (.list l)).map (backwardFrom n)
  | .backwardBytearray r n => (h.elements? (.bytearray r)).map (backwardFrom n)
  | _ => none

variable {s t : Session} {r : Ref .cursor} {form : CursorKind} {c : Cursor} {e : Element}
  {x : Value} {xs es : List Element}

theorem Heap.elements?_congr {h h' : Heap} (same : h.contents = h'.contents) (v : Value) :
    h.elements? v = h'.elements? v := by
  simp only [contents, Prod.mk.injEq] at same
  obtain ⟨lists, -, -, bytearrays⟩ := same
  cases v with
  | list l => simp only [elements?, list, lists]
  | bytearray r => simp only [elements?, bytearray, bytearrays]
  | _ => rfl

theorem Heap.ahead?_congr {h h' : Heap}
    (same : ∀ v, c.reads? = some v → h.elements? v = h'.elements? v) :
    h.ahead? c = h'.ahead? c := by
  cases c with
  | list | backwardList | backwardBytearray => rw [ahead?, ahead?, same _ rfl]
  | _ => rfl

-- ---------------------------------------------------------------------------
-- Steps
-- ---------------------------------------------------------------------------

/-- A step moves the cursor and then makes the value that is shown. -/
theorem runOn_show (r : Ref .cursor) (c : Cursor) {make : Action Value} {shown : Value → Prop}
    (makes : ∀ s, ∃ v fresh, make.runOn s = (.ok v, s.reach fresh) ∧ shown v) (s : Session) :
    ∃ v fresh, (do writeCursor r c; return some (← make) : Action (Option Value)).runOn s =
      (.ok (some v), (s.place r c).reach fresh) ∧ shown v := by
  obtain ⟨v, fresh, made, shows⟩ := makes (s.place r c)
  have written : (writeCursor r c).runOn s = (.ok (), s.place r c) := rfl
  refine ⟨v, fresh, ?_, shows⟩
  rw [runOn_bind_of_ok written, runOn_bind_of_ok made]
  rfl

theorem makes_value (v : Value) (s : Session) :
    ∃ u fresh, (pure v : Action Value).runOn s = (.ok u, s.reach fresh) ∧ u.Shows (.value v) :=
  ⟨v, s.heap.fresh, rfl, rfl⟩

theorem makes_char (c : Char) (s : Session) :
    ∃ u fresh, (newText (.ofChar c)).runOn s = (.ok u, s.reach fresh) ∧ u.Shows (.char c) := by
  obtain ⟨tag, fresh, made⟩ := runOn_newChars [c] s
  exact ⟨_, fresh, made, tag, rfl⟩

theorem toInt_ofNat_toNat (b : UInt8) : (Int64.ofNat b.toNat).toInt = b.toNat := by
  refine Int64.toInt_ofNat_of_lt ?_
  have := b.toNat_lt
  omega

theorem makes_byte (b : UInt8) (s : Session) :
    ∃ u fresh, (newByte b).runOn s = (.ok u, s.reach fresh) ∧ u.Shows (.byte b) := by
  obtain ⟨tag, fresh, made⟩ := runOn_newInt (Int64.ofNat b.toNat) s
  exact ⟨_, fresh, made, tag, _, rfl, toInt_ofNat_toNat b⟩

theorem backwardFrom_eq_cons {bound : Nat} (h : backwardFrom bound xs = e :: es) :
    ∃ n, bound = n + 1 ∧ xs[n]? = some e ∧ backwardFrom n xs = es := by
  rw [backwardFrom] at h
  split at h
  · next inside =>
    cases bound with
    | zero => cases h
    | succ n =>
      rw [List.take_add_one, List.getElem?_eq_getElem inside, Option.toList_some,
        List.reverse_append] at h
      obtain ⟨first, rest⟩ := List.cons.inj h
      refine ⟨n, rfl, ?_, (if_pos (Nat.le_of_succ_le inside)).trans rest⟩
      rw [List.getElem?_eq_getElem inside, first]
  · cases h

theorem backwardFrom_eq_nil {bound : Nat} (h : backwardFrom bound xs = []) :
    bound = 0 ∨ ∃ n, bound = n + 1 ∧ xs[n]? = none := by
  cases bound with
  | zero => exact .inl rfl
  | succ n =>
    refine .inr ⟨n, rfl, ?_⟩
    rw [List.getElem?_eq_none_iff]
    refine Nat.le_of_not_lt fun inside => ?_
    have length := congrArg List.length ((if_pos inside).symm.trans h)
    rw [List.length_reverse, List.length_take] at length
    exact absurd length (by simp only [List.length_nil]; omega)

/-- A step shows the first element ahead, and the others are ahead then. -/
theorem runOn_advance_cons (hc : s.heap.cursor r = c) (ahead : s.heap.ahead? c = some (e :: es))
    (next : Value → Action (Option Value)) :
    ∃ v c' fresh, (advanceCursor next r).runOn s = (.ok (some v), (s.place r c').reach fresh) ∧
      v.Shows e ∧ s.heap.ahead? c' = some es ∧ c'.reads? = c.reads? := by
  rw [advanceCursor, runOn_bind_of_ok (runOn_readCursor ..), hc]
  cases c with
  | list l n done =>
    cases done with
    | true => cases ahead
    | false =>
      have more : ((s.heap.list l).map Element.value).drop n = e :: es := Option.some.inj ahead
      have item := congrArg List.head? more
      have rest := congrArg List.tail more
      rw [List.head?_drop, List.head?_cons] at item
      rw [List.tail_drop, List.tail_cons] at rest
      obtain ⟨v, hv, rfl⟩ : ∃ v, (s.heap.list l)[n]? = some v ∧ .value v = e := by simpa using item
      have read : (readListItem? l n).runOn s = (.ok (some v), s) := by
        rw [runOn_readListItem?, Heap.listItem?_eq, hv]
      obtain ⟨u, fresh, run, shows⟩ :=
        runOn_show r (.list l (n + 1) false) (makes_value v) s
      refine ⟨u, .list l (n + 1) false, fresh, ?_, shows, congrArg some rest, rfl⟩
      exact (runOn_bind_of_ok read _).trans run
  | items rest =>
    cases rest with
    | nil => cases ahead
    | cons v vs =>
      cases ahead
      obtain ⟨u, fresh, run, shows⟩ := runOn_show r (.items vs) (makes_value v) s
      exact ⟨u, _, fresh, run, shows, rfl, rfl⟩
  | bytes rest =>
    cases rest with
    | nil => cases ahead
    | cons b bs =>
      cases ahead
      obtain ⟨u, fresh, run, shows⟩ := runOn_show r (.bytes bs) (makes_byte b) s
      exact ⟨u, _, fresh, run, shows, rfl, rfl⟩
  | text offset rest =>
    cases rest with
    | nil => cases ahead
    | cons c cs =>
      cases ahead
      obtain ⟨u, fresh, run, shows⟩ :=
        runOn_show r (.text (offset + c.utf8Size) cs) (makes_char c) s
      exact ⟨u, _, fresh, run, shows, rfl, rfl⟩
  | backwardText rest =>
    cases rest with
    | nil => cases ahead
    | cons c cs =>
      cases ahead
      obtain ⟨u, fresh, run, shows⟩ :=
        runOn_show r (.backwardText cs) (makes_char c) s
      exact ⟨u, _, fresh, run, shows, rfl, rfl⟩
  | backwardList l bound =>
    have more : backwardFrom bound ((s.heap.list l).map .value) = e :: es := Option.some.inj ahead
    obtain ⟨n, rfl, item, rest⟩ := backwardFrom_eq_cons more
    obtain ⟨v, hv, rfl⟩ : ∃ v, (s.heap.list l)[n]? = some v ∧ .value v = e := by simpa using item
    have read : (readListItem? l n).runOn s = (.ok (some v), s) := by
      rw [runOn_readListItem?, Heap.listItem?_eq, hv]
    obtain ⟨u, fresh, run, shows⟩ := runOn_show r (.backwardList l n) (makes_value v) s
    refine ⟨u, .backwardList l n, fresh, ?_, shows, congrArg some rest, rfl⟩
    exact (runOn_bind_of_ok read _).trans run
  | backwardBytearray a bound =>
    have more : backwardFrom bound ((s.heap.bytearray a).map .byte) = e :: es :=
      Option.some.inj ahead
    obtain ⟨n, rfl, item, rest⟩ := backwardFrom_eq_cons more
    obtain ⟨b, hb, rfl⟩ : ∃ b, (s.heap.bytearray a)[n]? = some b ∧ .byte b = e := by simpa using item
    have read : (readBytearrayItem? a n).runOn s = (.ok (some b), s) := by
      rw [runOn_readBytearrayItem?, Heap.bytearrayItem?_eq, hb]
    obtain ⟨u, fresh, run, shows⟩ :=
      runOn_show r (.backwardBytearray a n) (makes_byte b) s
    refine ⟨u, .backwardBytearray a n, fresh, ?_, shows, congrArg some rest, rfl⟩
    exact (runOn_bind_of_ok read _).trans run
  | _ => cases ahead

/-- With nothing ahead, a step shows nothing. It may put the cursor at its end. -/
theorem runOn_advance_nil (hc : s.heap.cursor r = c) (ahead : s.heap.ahead? c = some [])
    (next : Value → Action (Option Value)) :
    ∃ t, (advanceCursor next r).runOn s = (.ok none, t) ∧ (t = s ∨ ∃ c', t = s.place r c' ∧
      s.heap.ahead? c' = some [] ∧ c'.reads? = c.reads?) := by
  rw [advanceCursor, runOn_bind_of_ok (runOn_readCursor ..), hc]
  cases c with
  | list l n done =>
    cases done with
    | true => exact ⟨s, rfl, .inl rfl⟩
    | false =>
      have beyond : ((s.heap.list l).map Element.value).drop n = [] := Option.some.inj ahead
      rw [List.drop_eq_nil_iff, List.length_map, ← List.getElem?_eq_none_iff] at beyond
      have read : (readListItem? l n).runOn s = (.ok none, s) := by
        rw [runOn_readListItem?, Heap.listItem?_eq, beyond]
      exact ⟨_, runOn_bind_of_ok read _, .inr ⟨_, rfl, rfl, rfl⟩⟩
  | items rest | bytes rest | text offset rest | backwardText rest =>
    obtain rfl := List.map_eq_nil_iff.1 (Option.some.inj ahead)
    exact ⟨s, rfl, .inl rfl⟩
  | backwardList l bound =>
    obtain rfl | ⟨n, rfl, missing⟩ := backwardFrom_eq_nil (Option.some.inj ahead)
    · exact ⟨s, rfl, .inl rfl⟩
    · rw [List.getElem?_map, Option.map_eq_none_iff] at missing
      have read : (readListItem? l n).runOn s = (.ok none, s) := by
        rw [runOn_readListItem?, Heap.listItem?_eq, missing]
      exact ⟨_, runOn_bind_of_ok read _, .inr ⟨_, rfl, rfl, rfl⟩⟩
  | backwardBytearray a bound =>
    obtain rfl | ⟨n, rfl, missing⟩ := backwardFrom_eq_nil (Option.some.inj ahead)
    · exact ⟨s, rfl, .inl rfl⟩
    · rw [List.getElem?_map, Option.map_eq_none_iff] at missing
      have read : (readBytearrayItem? a n).runOn s = (.ok none, s) := by
        rw [runOn_readBytearrayItem?, Heap.bytearrayItem?_eq, missing]
      exact ⟨_, runOn_bind_of_ok read _, .inr ⟨_, rfl, rfl, rfl⟩⟩
  | _ => cases ahead

-- ---------------------------------------------------------------------------
-- Iterators with elements ahead
-- ---------------------------------------------------------------------------

section

variable {h h' : Heap} {es' : List Element}

/-- The cursor reads the sequence, if any, and has some of its elements ahead. -/
structure Heap.Ahead (h : Heap) (x : Value) (r : Ref .cursor) (xs es : List Element) : Prop where
  holds : h.elements? x = some xs
  reads : ∀ y, (h.cursor r).reads? = some y → y = x
  ahead : h.ahead? (h.cursor r) = some es

theorem Heap.elements?_of_content (same : h'.content x = h.content x) :
    h'.elements? x = h.elements? x := by
  cases x with
  | list => rw [elements?, elements?, Content.list.inj same]
  | bytearray => rw [elements?, elements?, Content.bytearray.inj same]
  | _ => rfl

/-- Such a cursor has the same elements ahead as long as it and the sequence stay as they are. -/
theorem Heap.Ahead.congr (ahead : h.Ahead x r xs es) (place : h'.cursor r = h.cursor r)
    (same : h'.elements? x = h.elements? x) : h'.Ahead x r xs es where
  holds := same.trans ahead.holds
  reads := place ▸ ahead.reads
  ahead := by
    rw [place, ← ahead.ahead]
    exact Heap.ahead?_congr fun y hy => ahead.reads y hy ▸ same

/-- The cursor alone has changed. -/
structure Session.Moved (s : Session) (r : Ref .cursor) (t : Session) : Prop where
  contents : t.heap.contents = s.heap.contents
  others : ∀ r', r' ≠ r → t.heap.cursor r' = s.heap.cursor r'

theorem Session.moved_place (fresh : Nat) : s.Moved r ((s.place r c).reach fresh) where
  contents := rfl
  others r' other := (s.cursor_place r' r c).trans (if_neg other)

theorem Heap.Ahead.place (fresh : Nat) (ahead : s.heap.Ahead x r xs es)
    (reads : c.reads? = (s.heap.cursor r).reads?) (rest : s.heap.ahead? c = some es') :
    ((s.place r c).reach fresh).heap.Ahead x r xs es' := by
  have moved : ((s.place r c).reach fresh).heap.cursor r = c := Heap.cursor_putCursor ..
  have same (y : Value) : ((s.place r c).reach fresh).heap.elements? y = s.heap.elements? y :=
    Heap.elements?_congr rfl y
  refine ⟨(same x).trans ahead.holds, ?_, ?_⟩
  · rw [moved, reads]
    exact ahead.reads
  · rw [moved, ← rest]
    exact Heap.ahead?_congr fun y _ => same y

/-- A step shows the first element ahead, if there is one, and then the others are ahead. -/
theorem runOn_next_ahead (ahead : s.heap.Ahead x r xs es) (form : CursorKind) :
    ∃ found t, (next (.cursor form r)).runOn s = (.ok found, t) ∧
      Option.Rel (fun e v => v.Shows e) es.head? found ∧ t.heap.Ahead x r xs es.tail ∧
      s.Moved r t := by
  have step := runOn_next form r s
  cases es with
  | nil =>
    obtain ⟨t, run, rfl | ⟨c, rfl, rest, same⟩⟩ :=
      runOn_advance_nil rfl ahead.ahead (advance s.heap.cursors.size)
    · exact ⟨none, t, step.trans run, .none, ahead, ⟨rfl, fun _ _ => rfl⟩⟩
    · exact ⟨none, _, step.trans run, .none, ahead.place _ same rest, Session.moved_place _⟩
  | cons e es =>
    obtain ⟨v, c, fresh, run, shows, rest, same⟩ :=
      runOn_advance_cons rfl ahead.ahead (advance s.heap.cursors.size)
    exact ⟨some v, _, step.trans run, .some shows, ahead.place _ same rest, Session.moved_place _⟩

end

-- ---------------------------------------------------------------------------
-- Whole walks
-- ---------------------------------------------------------------------------

/-- The cursor gives values that show the listed elements, one after the other,
and is then exhausted. Between two steps its place has to stay as it is and the
sequence has to have these elements; the steps themselves keep those. -/
def YieldsElements (x : Value) (xs : List Element) (form : CursorKind) (r : Ref .cursor) :
    List Element → Session → Prop
  | [], s => ∃ t, (next (.cursor form r)).runOn s = (.ok none, t)
  | e :: es, s => ∃ v t, (next (.cursor form r)).runOn s = (.ok (some v), t) ∧ v.Shows e ∧
    t.heap.elements? x = some xs ∧ ∀ u, u.heap.cursor r = t.heap.cursor r →
      u.heap.elements? x = some xs → YieldsElements x xs form r es u

/-- A cursor that reads no other sequence shows what is ahead of it. -/
theorem yieldsElements (form : CursorKind) (ahead : s.heap.Ahead x r xs es) :
    YieldsElements x xs form r es s := by
  induction es generalizing s with
  | nil =>
    obtain ⟨found, t, run, shown, -⟩ := runOn_next_ahead ahead form
    cases shown with
    | none => exact ⟨t, run⟩
  | cons e es ih =>
    obtain ⟨found, t, run, shown, rest, -⟩ := runOn_next_ahead ahead form
    cases shown with
    | some shows =>
      refine ⟨_, t, run, shows, rest.holds, fun u place held => ih ?_⟩
      exact rest.congr place (held.trans rest.holds.symm)

/-- The action opens a cursor that shows these elements of the sequence. -/
def Action.Opens (a : Action Value) (s : Session) (x : Value) (xs es : List Element) : Prop :=
  ∃ form r t, a.runOn s = (.ok (.cursor form r), t) ∧ YieldsElements x xs form r es t

/-- A new cursor does not change what the sequence holds. -/
theorem opens_newCursor (form : CursorKind) (hx : s.heap.elements? x = some xs)
    (reads : ∀ y, c.reads? = some y → y = x) (ahead : s.heap.ahead? c = some es) :
    (newCursor form c).Opens s x xs es := by
  obtain ⟨t, ht⟩ : ∃ t : Session, t =
      { s with heap := { s.heap with cursors := s.heap.cursors.push c } } := ⟨_, rfl⟩
  have opened : (newCursor form c).runOn s = (.ok (.cursor form ⟨s.heap.cursors.size⟩), t) :=
    ht ▸ rfl
  have place : t.heap.cursor ⟨s.heap.cursors.size⟩ = c := ht ▸ Store.get_push_size ..
  have same (y : Value) : t.heap.elements? y = s.heap.elements? y :=
    Heap.elements?_congr (ht ▸ rfl) y
  refine ⟨form, _, t, opened, yieldsElements form ⟨(same x).trans hx, place ▸ reads, ?_⟩⟩
  rw [place, ← ahead]
  exact Heap.ahead?_congr fun y _ => same y

theorem Action.Opens.of_runOn {a b : Action Value} (hb : b.Opens s x xs es)
    (same : a.runOn s = b.runOn s) : a.Opens s x xs es := by
  obtain ⟨form, r, t, run, yields⟩ := hb
  exact ⟨form, r, t, same.trans run, yields⟩

/-- Iterating opens a cursor with all elements ahead. -/
theorem runOn_iter_elements (hx : s.heap.elements? x = some xs) : ∃ form c,
    (iter x).runOn s = (newCursor form c).runOn s ∧ (∀ y, c.reads? = some y → y = x) ∧
      s.heap.ahead? c = some xs := by
  cases x with
  | list l =>
    refine ⟨.list, .list l 0 false, rfl, fun y hy => (Option.some.inj hy).symm, ?_⟩
    rw [Heap.ahead?, hx]
    rfl
  | tuple _ items =>
    cases hx
    exact ⟨.tuple, .items items, rfl, nofun, rfl⟩
  | str _ t =>
    cases hx
    exact ⟨.text, .text 0 t.chars, rfl, nofun, rfl⟩
  | bytes _ data =>
    cases hx
    exact ⟨.bytes, .bytes data, rfl, nofun, rfl⟩
  | bytearray r =>
    cases hx
    exact ⟨.bytearray, .bytes (s.heap.bytearray r), rfl, nofun, rfl⟩
  | _ => cases hx

/-- Iterating shows all elements in order. -/
theorem opens_iter (hx : s.heap.elements? x = some xs) : (iter x).Opens s x xs xs := by
  obtain ⟨form, c, run, reads, ahead⟩ := runOn_iter_elements hx
  exact .of_runOn (opens_newCursor form hx reads ahead) run

/-- The reversed iterator shows all elements, last first. -/
theorem opens_reversed (hx : s.heap.elements? x = some xs) :
    (call (.type (.cursor .reversed)) (.single x)).Opens s x xs xs.reverse := by
  have whole (es : List Element) : backwardFrom es.length es = es.reverse := by
    rw [backwardFrom, if_pos (Nat.le_refl _), List.take_length]
  have opens {c : Cursor} (found : (Construct.backward x).runOn s = (.ok c, s))
      (reads : ∀ y, c.reads? = some y → y = x) (ahead : s.heap.ahead? c = some xs.reverse) :
      (call (.type (.cursor .reversed)) (.single x)).Opens s x xs xs.reverse :=
    (opens_newCursor .reversed hx reads ahead).of_runOn (runOn_bind_of_ok found _)
  cases x with
  | list l =>
    refine opens rfl (fun y hy => (Option.some.inj hy).symm) ?_
    rw [Heap.ahead?, hx, ← whole, ← Option.some.inj hx, List.length_map]
    rfl
  | bytearray r =>
    refine opens rfl (fun y hy => (Option.some.inj hy).symm) ?_
    rw [Heap.ahead?, hx, ← whole, ← Option.some.inj hx, List.length_map]
    rfl
  | tuple | str | bytes =>
    cases hx
    exact opens rfl nofun (congrArg some List.map_reverse)
  | _ => cases hx

-- ---------------------------------------------------------------------------
-- All items at once
-- ---------------------------------------------------------------------------

/-- Putting a cursor somewhere that was not there before only adds to a heap. -/
theorem Heap.Adds.place {h : Heap} (adds : h.Adds s.heap) (new : h.cursors.size ≤ r.index)
    (c : Cursor) : h.Adds (s.place r c).heap :=
  { adds with
    cursors := ⟨adds.cursors.1.trans (s.size_le_place r c), fun i inside =>
      (Store.get_set_ne _ _ (Nat.ne_of_lt (inside.trans_le new))).trans (adds.cursors.2 i inside)⟩ }

theorem length_backwardFrom_le (bound : Nat) (es : List Element) :
    (backwardFrom bound es).length ≤ bound := by
  rw [backwardFrom]
  split
  · exact (List.length_reverse ..).trans_le (List.length_take_le ..)
  · exact Nat.zero_le _

/-- A reader has the patience for all that is ahead of a cursor. -/
theorem Heap.length_le_remaining {h : Heap} (ahead : h.ahead? (h.cursor r) = some es) (n : Nat)
    (form : CursorKind) : es.length ≤ h.remaining (n + 1) (.cursor form r) := by
  rw [remaining]
  cases found : h.cursor r with
  | list l n done =>
    rw [found] at ahead
    cases done with
    | true =>
      cases ahead
      exact Nat.zero_le _
    | false =>
      cases ahead
      show (((h.list l).map Element.value).drop n).length ≤ (h.list l).length - n
      rw [List.length_drop, List.length_map]
  | items | bytes | text | backwardText =>
    rw [found] at ahead
    cases ahead
    exact (List.length_map _).le
  | backwardList | backwardBytearray =>
    rw [found] at ahead
    cases ahead
    exact length_backwardFrom_le ..
  | _ =>
    rw [found] at ahead
    cases ahead

/-- Collecting the items that are ahead of a new cursor only adds to a heap. -/
theorem runOn_collect_ahead {h : Heap} (adds : h.Adds s.heap) (new : h.cursors.size ≤ r.index)
    {vs : List Value} (ahead : s.heap.ahead? (s.heap.cursor r) = some (vs.map .value))
    {budget : Nat} (patient : vs.length < budget) (acc : List Value) :
    ∃ t, (foldFrom collect budget (.cursor form r) acc).runOn s = (.ok (vs.reverse ++ acc), t) ∧
      h.Adds t.heap := by
  induction vs generalizing s budget acc with
  | nil =>
    cases budget with
    | zero => cases patient
    | succ budget =>
      obtain ⟨t, ended, place⟩ := runOn_advance_nil rfl ahead (advance s.heap.cursors.size)
      rw [foldFrom, runOn_bind_of_ok ((runOn_next form r s).trans ended)]
      refine ⟨t, rfl, ?_⟩
      obtain rfl | ⟨c, rfl, -⟩ := place
      · exact adds
      · exact adds.place new c
  | cons v vs ih =>
    cases budget with
    | zero => cases patient
    | succ budget =>
      obtain ⟨u, c, fresh, shown, rfl, rest, -⟩ :=
        runOn_advance_cons rfl ahead (advance s.heap.cursors.size)
      obtain ⟨moved, hm⟩ : ∃ t, t = (s.place r c).reach fresh := ⟨_, rfl⟩
      rw [← hm] at shown
      have place : moved.heap.cursor r = c := hm ▸ Heap.cursor_putCursor ..
      have ahead : moved.heap.ahead? (moved.heap.cursor r) = some (vs.map .value) := by
        rw [place, ← rest]
        exact Heap.ahead?_congr fun y _ => Heap.elements?_congr (hm ▸ rfl) y
      have adds : h.Adds moved.heap := hm ▸ { adds.place new c with }
      obtain ⟨t, collected, adds⟩ := ih adds ahead (Nat.lt_of_succ_lt_succ patient) (u :: acc)
      refine ⟨t, ?_, adds⟩
      rw [foldFrom, runOn_bind_of_ok ((runOn_next form r s).trans shown)]
      refine (runOn_bind_of_ok (runOn_collectOne acc u moved) _).trans ?_
      rw [collected, List.reverse_cons, List.append_assoc, List.singleton_append]

theorem Heap.Adds.elements?_eq {h h' : Heap} (adds : h.Adds h') (stores : h.Stores x) :
    h'.elements? x = h.elements? x :=
  elements?_of_content (adds.content_eq stores)

/-- The items of lists and tuples are their elements, and nothing else has values as
elements. -/
theorem Heap.of_elements?_values {h : Heap} {vs : List Value}
    (hx : h.elements? x = some (vs.map .value)) (nonempty : vs ≠ []) :
    (∃ l, x = .list l ∧ h.list l = vs) ∨ ∃ tag, x = .tuple tag vs := by
  have injective : Function.Injective Element.value := fun _ _ => Element.value.inj
  cases x with
  | list l => exact .inl ⟨l, rfl, List.map_injective_iff.2 injective (Option.some.inj hx)⟩
  | tuple tag items =>
    obtain rfl := List.map_injective_iff.2 injective (Option.some.inj hx)
    exact .inr ⟨tag, rfl⟩
  | str | bytes | bytearray =>
    obtain ⟨v, vs, rfl⟩ := List.exists_cons_of_ne_nil nonempty
    have first := congrArg List.head? (Option.some.inj hx)
    rw [List.head?_map] at first
    simp at first
  | _ => cases hx

/-- The items of a list or a tuple are read by a new cursor. -/
theorem runOn_items_elements {vs : List Value} (hx : s.heap.elements? x = some (vs.map .value)) :
    ∃ t, (items x).runOn s = (.ok vs, t) ∧ s.heap.Adds t.heap := by
  obtain ⟨form, c, run, -, ahead⟩ := runOn_iter_elements hx
  obtain ⟨opened, ho⟩ : ∃ t : Session, t =
      { s with heap := { s.heap with cursors := s.heap.cursors.push c } } := ⟨_, rfl⟩
  have adds : s.heap.Adds opened.heap := ho ▸ { Heap.Adds.refl s.heap with cursors := .push _ _ }
  have place : opened.heap.cursor ⟨s.heap.cursors.size⟩ = c := ho ▸ Store.get_push_size ..
  have ahead : opened.heap.ahead? (opened.heap.cursor ⟨s.heap.cursors.size⟩) =
      some (vs.map .value) := by
    rw [place, ← ahead]
    exact Heap.ahead?_congr fun y _ => Heap.elements?_congr (ho ▸ rfl) y
  have patient : vs.length < opened.heap.patience (.cursor form ⟨s.heap.cursors.size⟩) := by
    have le := Heap.length_le_remaining ahead opened.heap.cursors.size form
    rw [List.length_map] at le
    exact Nat.lt_of_le_of_lt le (Nat.lt_add_of_pos_right (by decide))
  obtain ⟨t, collected, adds⟩ := runOn_collect_ahead adds (Nat.le_refl _) ahead patient []
  refine ⟨t, ?_, adds⟩
  have opens : (iter x).runOn s = (.ok (.cursor form ⟨s.heap.cursors.size⟩), opened) :=
    run.trans (ho ▸ rfl)
  rw [items, runOn_bind_of_ok ((runOn_fold opens []).trans collected), List.append_nil,
    List.reverse_reverse, runOn_pure]

-- ---------------------------------------------------------------------------
-- Places
-- ---------------------------------------------------------------------------

/-- The length is the number of elements, if that is a word. -/
theorem runOn_len (hx : s.heap.elements? x = some xs) (fits : Checked.Fits xs.length) :
    ∃ v fresh, (call (.builtin .len) (.single x)).runOn s = (.ok v, s.reach fresh) ∧
      v.IsInt xs.length := by
  obtain ⟨known, sized⟩ : s.heap.length? x = some xs.length ∧ x.hasLen = true := by
    cases x with
    | str _ t =>
      cases hx
      exact ⟨congrArg some (t.count_eq.trans (List.length_map _).symm), rfl⟩
    | list | tuple | bytes | bytearray =>
      cases hx
      exact ⟨congrArg some (List.length_map _).symm, rfl⟩
    | _ => cases hx
  have counted : (length x).runOn s = (.ok (Int64.ofInt xs.length), s) := by
    rw [length, runOn_bind_of_ok (runOn_heap s), known]
    simp only [wordOf, Checked.narrow?, if_pos fits]
    rfl
  have called : (call (.builtin .len) (.single x)).runOn s =
      (newInt (Int64.ofInt xs.length)).runOn s := by
    show (if x.hasLen then length x >>= newInt else fail (.noLength x.kind)).runOn s = _
    rw [if_pos sized, runOn_bind_of_ok counted]
  obtain ⟨tag, fresh, made⟩ := runOn_newInt (Int64.ofInt xs.length) s
  exact ⟨_, fresh, called.trans made, tag, _, rfl, Int64.toInt_ofInt_of_le fits.1 fits.2⟩

/-- An index gives a value that shows the element at the place that it names. -/
theorem runOn_getItem_shows (hx : s.heap.elements? x = some xs) {i : Int64} {p : Nat}
    (named : Subscript.placeOf i.toInt xs.length = p) (he : xs[p]? = some e) (tag : Tag) :
    ∃ v fresh, (getItem x (.int tag i)).runOn s = (.ok v, s.reach fresh) ∧ v.Shows e := by
  cases x with
  | list l =>
    cases hx
    rw [List.length_map] at named
    obtain ⟨v, hv, rfl⟩ : ∃ v, (s.heap.list l)[p]? = some v ∧ .value v = e := by simpa using he
    exact ⟨v, s.heap.fresh, runOn_lift_of_ok (Subscript.pick_eq_ok named hv "list") s, rfl⟩
  | tuple _ items =>
    cases hx
    rw [List.length_map] at named
    obtain ⟨v, hv, rfl⟩ : ∃ v, items[p]? = some v ∧ .value v = e := by simpa using he
    exact ⟨v, s.heap.fresh, runOn_lift_of_ok (Subscript.pick_eq_ok named hv "tuple") s, rfl⟩
  | str _ t =>
    cases hx
    rw [List.length_map] at named
    obtain ⟨c, hc, rfl⟩ : ∃ c, t.chars[p]? = some c ∧ .char c = e := by simpa using he
    have picked := runOn_lift_of_ok (Subscript.pick_eq_ok named hc "string") s
    obtain ⟨u, fresh, made, shows⟩ := makes_char c s
    exact ⟨u, fresh, (runOn_bind_of_ok picked _).trans made, shows⟩
  | bytes _ data =>
    cases hx
    rw [List.length_map] at named
    obtain ⟨b, hb, rfl⟩ : ∃ b, data[p]? = some b ∧ .byte b = e := by simpa using he
    have picked := runOn_lift_of_ok (Subscript.pick_eq_ok named hb "index") s
    obtain ⟨u, fresh, made, shows⟩ := makes_byte b s
    exact ⟨u, fresh, (runOn_bind_of_ok picked _).trans made, shows⟩
  | bytearray r =>
    cases hx
    rw [List.length_map] at named
    obtain ⟨b, hb, rfl⟩ : ∃ b, (s.heap.bytearray r)[p]? = some b ∧ .byte b = e := by simpa using he
    have picked := runOn_lift_of_ok (Subscript.pick_eq_ok named hb "bytearray") s
    obtain ⟨u, fresh, made, shows⟩ := makes_byte b s
    exact ⟨u, fresh, (runOn_bind_of_ok picked _).trans made, shows⟩
  | _ => cases hx

/-- Any other index is an `IndexError`. -/
theorem raisesIndex_getItem (hx : s.heap.elements? x = some xs) {i : Int64}
    (outside : ¬ Subscript.InRange i.toInt xs.length) (tag : Tag) :
    (getItem x (.int tag i)).RaisesIndex s := by
  have raises {α : Type} {ys : List α} (same : xs.length = ys.length) (what : String)
      (run : ∀ c, Subscript.pick what ys i.toInt = .error c →
        (getItem x (.int tag i)).runOn s = (.error (.cause c), s)) :
      (getItem x (.int tag i)).RaisesIndex s :=
    ⟨_, s.heap.fresh, run _ (Subscript.pick_eq_error (same ▸ outside) what), rfl⟩
  cases x with
  | list l =>
    cases hx
    exact raises (List.length_map _) "list" fun _ h => runOn_lift_of_error h s
  | tuple _ items =>
    cases hx
    exact raises (List.length_map _) "tuple" fun _ h => runOn_lift_of_error h s
  | str | bytes | bytearray =>
    cases hx
    exact raises (List.length_map _) _ fun _ h => runOn_bind_of_error (runOn_lift_of_error h s) _
  | _ => cases hx

end ObjectModel
