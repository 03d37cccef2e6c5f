import ObjectModel.Proofs.Reading

/-!
# Handles deliver every byte once

A program opens a file, reads from the handle in any way and does other things
in between. What it has read, in order, and what is left to be read are at every
moment the content of the file. Once the handle is closed, nothing more is read.

Main statement: `delivers_every_byte_once`.
-/

namespace ObjectModel

open ObjectModel.Action

-- ---------------------------------------------------------------------------
-- Opening
-- ---------------------------------------------------------------------------

/-- The path can be opened and yields the content and then its end. -/
def Session.Serves (s : Session) (path : List Char) (content : List UInt8) : Prop :=
  ∃ source, s.files.find? (·.path == path) = some source ∧ source.content = content ∧
    source.openFailure = none ∧ source.readFailure = none

section
variable {s t : Session} {mode : FileMode} {r : Ref .file} {path : List Char}
  {content : List UInt8}

theorem runOn_openFile {text : List Char} (serves : s.Serves path content)
    (parsed : File.parseMode? text = some mode) :
    ∃ t, (FileMethod.openFile path text).runOn s = (.ok (.file mode ⟨s.heap.files.size⟩), t) ∧
      t.heap.file ⟨s.heap.files.size⟩ = ⟨path, mode, s.foldsNewlines, content, none, true⟩ := by
  obtain ⟨source, found, rfl, opens, sound⟩ := serves
  have got : (get : Action Session).runOn s = (.ok s, s) := rfl
  have made : (FileMethod.openFile path text).runOn s = (newFile
      ⟨path, mode, s.foldsNewlines, source.content, source.readFailure, true⟩).runOn s := by
    rw [FileMethod.openFile, parsed]
    dsimp only
    rw [runOn_bind_of_ok got, found]
    dsimp only
    rw [opens]
  rw [made, sound]
  exact ⟨_, rfl, Store.get_push_size ..⟩

/-- A handle that has been opened has the content before it. -/
theorem file_of_open {a : Arguments} {tag : Tag} {name : Text}
    (given : a.get? 0 "file" = some (.str tag name)) (serves : s.Serves name.chars content)
    (run : (callBuiltin "open" a).runOn s = (.ok (.file mode r), t)) :
    t.heap.file r = ⟨name.chars, mode, s.foldsNewlines, content, none, true⟩ := by
  change (Function.openPath a).runOn s = _ at run
  obtain ⟨_, _, allowed, checked⟩ := exists_of_runOn_bind run
  obtain ⟨-, rfl⟩ := of_runOn_lift allowed
  obtain ⟨_, _, arity, chosen⟩ := exists_of_runOn_bind checked
  obtain ⟨-, rfl⟩ := of_runOn_lift arity
  rw [given] at chosen
  obtain ⟨text, _, moded, plain⟩ := exists_of_runOn_bind chosen
  obtain ⟨-, rfl⟩ := of_runOn_lift moded
  obtain ⟨_, u, utf8, opening⟩ := exists_of_runOn_bind plain
  have same : s = u := by
    unfold Function.requireUtf8 at utf8
    split at utf8
    · split at utf8 <;> cases utf8
      rfl
    · cases utf8
      rfl
  subst same
  cases parsed : File.parseMode? text with
  | none =>
    rw [FileMethod.openFile, parsed] at opening
    cases opening
  | some mode' =>
    obtain ⟨_, opened, content⟩ := runOn_openFile serves parsed
    cases opened.symm.trans opening
    exact content

theorem exists_open {name text : Text} (serves : s.Serves name.chars content)
    (parsed : File.parseMode? text.chars = some mode) (tag tag' : Tag) :
    ∃ r t, (callBuiltin "open" ⟨[.str tag name, .str tag' text], ∅⟩).runOn s =
      (.ok (.file mode r), t) := by
  obtain ⟨t, run, -⟩ := runOn_openFile serves parsed
  exact ⟨_, t, run⟩

end

-- ---------------------------------------------------------------------------
-- Reading
-- ---------------------------------------------------------------------------

/-- The bytes that a value is made of. -/
def Value.data : Value → List UInt8
  | .bytes _ data => data
  | _ => []

namespace Program

/-- A program that opens a file, reads from the handle, and does what leaves the
handle as it is. What each reading hands over is recorded, with the bytes that
are then left. -/
inductive Drains (content : List UInt8) (mode : FileMode) (r : Ref .file) :
    List (List Value × List UInt8) → Program → Prop
  | opened {p : Program} {a : Arguments} {tag : Tag} {name : Text} {s : Session} :
    a.get? 0 "file" = some (.str tag name) → p.session.Serves name.chars content →
    (Action.callBuiltin "open" a).runOn p.session = (.ok (.file mode r), s) →
    Drains content mode r [] (p.perform (.callBuiltin "open" a))
  | read {record : List (List Value × List UInt8)} {p : Program} {o : Reading} {vs : List Value}
    {s : Session} : Drains content mode r record p →
    (o.operation (.file mode r)).action.runOn p.session = (.ok vs, s) →
    Drains content mode r (record ++ [(vs, (s.heap.file r).pending)])
      (p.perform (o.operation (.file mode r)))
  | other {record : List (List Value × List UInt8)} {p : Program} (o : Operation) :
    Drains content mode r record p → (p.perform o).heap.file r = p.heap.file r →
    Drains content mode r record (p.perform o)

variable {content : List UInt8} {mode : FileMode} {r : Ref .file}
  {record : List (List Value × List UInt8)} {p : Program} {o : Reading}

/-- A file that is served can be opened. -/
theorem exists_drains {name text : Text} (serves : p.session.Serves name.chars content)
    (parsed : File.parseMode? text.chars = some mode) (tag tag' : Tag) :
    ∃ r q, q = p.perform (.callBuiltin "open" ⟨[.str tag name, .str tag' text], ∅⟩) ∧
      Drains content mode r [] q ∧
      (q.heap.file r).foldsNewlines = p.session.foldsNewlines := by
  obtain ⟨r, t, run⟩ := exists_open serves parsed tag tag'
  have given : Arguments.get? ⟨[.str tag name, .str tag' text], ∅⟩ 0 "file" =
    some (.str tag name) := rfl
  refine ⟨r, _, rfl, .opened given serves run, ?_⟩
  rw [perform_of_ok (runOn_bind_of_ok run _), heap, file_of_open given serves run]

theorem Drains.sound (drains : Drains content mode r record p) :
    (p.heap.file r).Sound mode := by
  induction drains with
  | opened given serves run =>
    rw [perform_of_ok (runOn_bind_of_ok run _)]
    exact file_of_open given serves run ▸ ⟨rfl, rfl, rfl⟩
  | read _ run ih =>
    obtain ⟨_, _, _, _, _, _, _, left⟩ := Reading.of_runOn rfl ih run
    rw [perform_of_ok run, heap, left]
    exact ⟨ih.mode_eq, ih.isOpen, ih.failure_eq⟩
  | other _ _ same ih => exact same ▸ ih

theorem data_hands (o : Reading) (tag : Tag) (got : List UInt8) :
    (o.hands (.bytes tag got)).flatMap Value.data = got := by
  cases o with
  | next => cases got <;> simp [Reading.hands, Reading.item?, Value.data]
  | _ => simp [Reading.hands, Value.data]

/-- What has been read and what is left are the content. -/
theorem Drains.data_append (drains : Drains content .binary r record p) :
    record.flatMap (·.1.flatMap Value.data) ++ (p.heap.file r).pending = content := by
  induction drains with
  | opened given serves run =>
    rw [perform_of_ok (runOn_bind_of_ok run _), heap, file_of_open given serves run]
    rfl
  | @read record p o vs s before run ih =>
    obtain ⟨tag, got, rest, v, takes, shown, rfl, left⟩ :=
      Reading.of_runOn (f := p.heap.file r) rfl before.sound run
    cases (before.sound.shown_binary tag got).symm.trans shown
    rw [perform_of_ok run, heap, left, List.flatMap_append, List.append_assoc, ← ih, ← takes.append]
    simp [data_hands]
  | other _ _ same ih => rw [same, ih]

/-- A reading gives what it takes. -/
theorem Drains.runOn (drains : Drains content .binary r record p) {got rest : List UInt8}
    (takes : o.Takes (p.heap.file r).pending got rest) :
    ∃ tag t, (o.operation (.file .binary r)).action.runOn p.session =
      (.ok (o.hands (.bytes tag got)), t) ∧ (t.heap.file r).pending = rest := by
  obtain ⟨tag, t, left, run⟩ :=
    Reading.runOn_of_takes (f := p.heap.file r) rfl drains.sound takes
  rw [drains.sound.shown_binary tag got] at run
  exact ⟨tag, t, run, congrArg File.pending left⟩

-- ---------------------------------------------------------------------------
-- Closing
-- ---------------------------------------------------------------------------

end Program

/-- Operations that close a handle. -/
inductive Operation.Closes (handle : Value) : Operation → Prop
  | close : Closes handle (.callMethod handle "close".toList ⟨[], ∅⟩)
  | exit : Closes handle (.exit handle)

/-- Operations that an open handle is needed for. -/
inductive Operation.Draws (handle : Value) : Operation → Prop
  | read {o : Reading} : o.Sized → Draws handle (o.operation handle)
  | iter : Draws handle (.iter handle)
  | enter : Draws handle (.enter handle)

namespace Operation

variable {mode : FileMode} {r : Ref .file} {o : Operation} {s : Session}

theorem Closes.runOn (closes : o.Closes (.file mode r)) (s : Session) :
    ∃ vs t, o.action.runOn s = (.ok vs, t) ∧ t.heap.file r = (s.heap.file r).close := by
  cases closes with
  | close =>
    refine ⟨[.none], { s.tick with heap := s.tick.heap.putFile r (s.heap.file r).close }, rfl, ?_⟩
    exact Heap.file_putFile ..
  | exit => exact ⟨[], _, rfl, Heap.file_putFile ..⟩

theorem Draws.runOn_closed (draws : o.Draws (.file mode r))
    (closed : (s.heap.file r).isOpen = false) :
    ∃ t, o.action.runOn s = (.error (.cause .closedFile), t) ∧ t.heap.file r = s.heap.file r := by
  have isOpen : (readFile r).runOn s = (.ok (s.heap.file r), s) := rfl
  cases draws with
  | @read o sized =>
    obtain ⟨t, left, run⟩ := Reading.runOn_of_closed mode sized rfl closed
    exact ⟨t, run, left⟩
  | iter | enter =>
    refine ⟨s, ?_, rfl⟩
    refine runOn_bind_of_error (runOn_bind_of_ok isOpen _ |>.trans ?_) _
    rw [closed]
    rfl

end Operation

namespace Program

/-- A program that has closed a handle, by either operation and perhaps not for
the first time, and that then does what leaves the handle as it is. -/
inductive Shut (mode : FileMode) (r : Ref .file) : Program → Prop
  | closed (p : Program) {o : Operation} : o.Closes (.file mode r) → Shut mode r (p.perform o)
  | other {p : Program} (o : Operation) : Shut mode r p →
    (p.perform o).heap.file r = p.heap.file r → Shut mode r (p.perform o)

variable {mode : FileMode} {r : Ref .file} {p : Program} {o : Operation}

theorem Shut.isOpen (shut : Shut mode r p) : (p.heap.file r).isOpen = false := by
  induction shut with
  | closed p closes =>
    obtain ⟨vs, t, run, left⟩ := closes.runOn p.session
    rw [perform_of_ok run, heap, left]
    rfl
  | other o _ same ih => rw [same, ih]

/-- Catching an exception leaves files as they are. -/
theorem file_perform_of_error {f : Fault} {t : Session}
    (run : o.action.runOn p.session = (.error f, t)) (r : Ref .file) :
    (p.perform o).heap.file r = t.heap.file r := by
  rw [heap, session_perform, Operation.attempt, runOn_tryCatch, run]
  have kept : ((caught? f).runOn t).2.heap.files = t.heap.files := by
    cases f with
    | cause c =>
      unfold caught? argumentsOf
      dsimp only
      cases c.text? with
      | none => rfl
      | some text =>
        simp only [newText, tagUnless]
        split <;> rfl
    | _ => rfl
  dsimp only
  rw [runOn_bind]
  split <;> next caught => exact congrArg (·.get r.index) (caught ▸ kept)

/-- A closed handle refuses, and the program goes on with it closed. -/
theorem Shut.refuses (shut : Shut mode r p) (draws : o.Draws (.file mode r)) :
    (∃ t, o.action.runOn p.session = (.error (.cause .closedFile), t)) ∧
      Shut mode r (p.perform o) := by
  obtain ⟨t, run, left⟩ := draws.runOn_closed shut.isOpen
  exact ⟨⟨t, run⟩, shut.other o ((file_perform_of_error run r).trans left)⟩

/-- A file that is served can be opened in a binary mode. However the handle is
then read, what has been read and what is left are the content, and the next
reading gives what it is to take of what is left. Handles can be closed at any
time, and closed handles give nothing: what needs an open one is a `ValueError`. -/
theorem delivers_every_byte_once :
    (∀ (p : Program) (name text : Text) (tag tag' : Tag) (content : List UInt8),
      p.session.Serves name.chars content → File.parseMode? text.chars = some .binary →
      ∃ r, Drains content .binary r []
        (p.perform (.callBuiltin "open" ⟨[.str tag name, .str tag' text], ∅⟩))) ∧
    (∀ content r record p, Drains content .binary r record p →
      record.flatMap (·.1.flatMap Value.data) ++ (p.heap.file r).pending = content ∧
      ∀ o : Reading, o.Sized → ∃ got rest tag t, o.Takes (p.heap.file r).pending got rest ∧
        (o.operation (.file .binary r)).action.runOn p.session =
          (.ok (o.hands (.bytes tag got)), t) ∧ (t.heap.file r).pending = rest) ∧
    (∀ mode r (p : Program) (o : Operation), o.Closes (.file mode r) →
      (∃ vs t, o.action.runOn p.session = (.ok vs, t)) ∧ Shut mode r (p.perform o)) ∧
    (∀ mode r (p : Program) (o : Operation), Shut mode r p → o.Draws (.file mode r) →
      (∃ t, o.action.runOn p.session = (.error (.cause .closedFile), t)) ∧
      Shut mode r (p.perform o)) ∧
    Cause.closedFile.kind = .value := by
  refine ⟨?_, ?_, ?_, fun mode r p o shut draws => shut.refuses draws, rfl⟩
  · intro p name text tag tag' content serves parsed
    obtain ⟨r, _, rfl, drains, -⟩ := exists_drains serves parsed tag tag'
    exact ⟨r, drains⟩
  · intro content r record p drains
    refine ⟨drains.data_append, fun o sized => ?_⟩
    obtain ⟨got, rest, takes⟩ := sized.exists_takes (p.heap.file r).pending
    obtain ⟨tag, t, run, left⟩ := drains.runOn takes
    exact ⟨got, rest, tag, t, takes, run, left⟩
  · intro mode r p o closes
    obtain ⟨vs, t, run, -⟩ := closes.runOn p.session
    exact ⟨⟨vs, t, run⟩, .closed p closes⟩

/-- A program that has opened a file of two lines. -/
def unread : Program :=
  (start [⟨['f'], [0x41, 0x0A, 0x42], none, none⟩] false).perform
    (.callBuiltin "open" ⟨[.str 0 (.ofChars ['f']), .str 0 (.ofChars ['r', 'b'])], ∅⟩)

/-- Both lines are delivered, nothing is left, and once closed the handle cannot
be entered. -/
theorem delivers_two_lines : ∃ record p, Drains [0x41, 0x0A, 0x42] .binary ⟨0⟩ record p ∧
    record.map (·.1.flatMap Value.data) = [[0x41, 0x0A], [0x42]] ∧
    record.flatMap (·.1.flatMap Value.data) ++ (p.heap.file ⟨0⟩).pending = [0x41, 0x0A, 0x42] ∧
    ∃ t, (Operation.enter (.file .binary ⟨0⟩)).action.runOn
      (p.perform (.exit (.file .binary ⟨0⟩))).session = (.error (.cause .closedFile), t) := by
  have opened : Drains [0x41, 0x0A, 0x42] .binary ⟨0⟩ [] unread :=
    .opened rfl ⟨_, rfl, rfl, rfl, rfl⟩ rfl
  have drains := (opened.read (o := .readLine) rfl).read (o := .next) rfl
  obtain ⟨-, exact, closes, refuses, -⟩ := delivers_every_byte_once
  refine ⟨_, _, drains, rfl, (exact _ _ _ _ drains).1, ?_⟩
  exact (refuses _ _ _ _ (closes _ _ _ _ .exit).2 .enter).1

end Program

end ObjectModel
