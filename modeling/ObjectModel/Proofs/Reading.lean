import ObjectModel.Proofs.Program.Basic

/-!
# Reading from handles

A reading takes bytes off the front of those that a handle has still to deliver:
a line, a number of bytes, or all of them. On an open handle of a device without
faults it does so and nothing else. On a closed handle every reading fails.

Main statements: `Reading.runOn_of_takes`, its converse `Reading.of_runOn`, and
`Reading.runOn_of_closed`.
-/

namespace ObjectModel

open ObjectModel.Action

-- ---------------------------------------------------------------------------
-- Lines
-- ---------------------------------------------------------------------------

namespace File

/-- A line at the front of some bytes, and the bytes after it. It ends with the
first newline; without a newline it is all there is. -/
inductive Line : List UInt8 → List UInt8 → List UInt8 → Prop
  | ended {front rest : List UInt8} : 0x0A ∉ front →
    Line (front ++ 0x0A :: rest) (front ++ [0x0A]) rest
  | last {bytes : List UInt8} : 0x0A ∉ bytes → Line bytes bytes []

variable {bytes line rest : List UInt8}

theorem Line.append (h : Line bytes line rest) : line ++ rest = bytes := by
  cases h with
  | ended => rw [List.append_assoc, List.singleton_append]
  | last => exact List.append_nil bytes

theorem splitLine_of_line (h : Line bytes line rest) : splitLine bytes = (line, rest) := by
  cases h with
  | @ended front rest clean =>
    induction front with
    | nil => rfl
    | cons b front ih =>
      have hb := List.ne_of_not_mem_cons clean
      rw [List.cons_append, splitLine, if_neg hb.symm, ih (List.not_mem_of_not_mem_cons clean)]
      rfl
  | last clean =>
    induction bytes with
    | nil => rfl
    | cons b bytes ih =>
      have hb := List.ne_of_not_mem_cons clean
      rw [splitLine, if_neg hb.symm, ih (List.not_mem_of_not_mem_cons clean)]

theorem exists_line (bytes : List UInt8) : ∃ line rest, Line bytes line rest := by
  by_cases h : 0x0A ∈ bytes
  · obtain ⟨front, rest, rfl, clean⟩ := List.eq_append_cons_of_mem h
    exact ⟨_, _, .ended clean⟩
  · exact ⟨_, _, .last h⟩

end File

-- ---------------------------------------------------------------------------
-- What a reading takes
-- ---------------------------------------------------------------------------

/-- A step that reads: a line, a number of bytes, or an item of the iteration. -/
inductive Reading where
  | readLine
  | read (size : Option Value)
  | next

namespace Reading

/-- The number of bytes that a size asks for. No size, `None` and a negative
number ask for all. -/
inductive Asks : Option Value → Option Nat → Prop
  | absent : Asks none none
  | none : Asks (some .none) none
  | negative {v : Value} {n : Int64} : v.asInt? = some n → n < 0 → Asks (some v) none
  | count {v : Value} {n : Int64} : v.asInt? = some n → ¬ n < 0 → Asks (some v) (some n.toInt.toNat)

/-- The number of bytes that the size of a reading asks for, if it has one. -/
def AsksFor : Reading → Option Nat → Prop
  | .read size, n => Asks size n
  | _, _ => True

/-- The size of the reading is a number or `None`, if it has one. -/
def Sized (o : Reading) : Prop := ∃ n, o.AsksFor n

/-- What a reading takes of the bytes that are left, and what it leaves. -/
inductive Takes : Reading → List UInt8 → List UInt8 → List UInt8 → Prop
  | readLine : File.Line left line rest → Takes .readLine left line rest
  | next : File.Line left line rest → Takes .next left line rest
  | all : Asks size none → Takes (.read size) left left []
  | count : Asks size (some n) → Takes (.read size) left (left.take n) (left.drop n)

variable {o : Reading} {left got rest : List UInt8}

theorem Takes.append (h : o.Takes left got rest) : got ++ rest = left := by
  cases h with
  | readLine line | next line => exact line.append
  | all => exact List.append_nil left
  | count => exact List.take_append_drop _ left

theorem Sized.exists_takes (h : o.Sized) (left : List UInt8) :
    ∃ got rest, o.Takes left got rest := by
  cases o with
  | readLine =>
    obtain ⟨line, rest, h⟩ := File.exists_line left
    exact ⟨line, rest, .readLine h⟩
  | next =>
    obtain ⟨line, rest, h⟩ := File.exists_line left
    exact ⟨line, rest, .next h⟩
  | read size =>
    obtain ⟨_ | n, asks⟩ := h
    · exact ⟨_, _, .all asks⟩
    · exact ⟨_, _, .count asks⟩

/-- The operation that reads from a handle. -/
def operation (handle : Value) : Reading → Operation
  | .readLine => .callMethod handle "readline".toList ⟨[], ∅⟩
  | .read size => .callMethod handle "read".toList ⟨size.toList, ∅⟩
  | .next => .next handle

/-- The item that a line is, if it is not empty. -/
def item? : Value → Option Value
  | .bytes _ [] => none
  | .str tag t => if t.isEmpty then none else some (.str tag t)
  | line => some line

/-- What a reading hands over of what the handle shows. -/
def hands : Reading → Value → List Value
  | .next, v => (item? v).toList
  | _, v => [v]

end Reading

-- ---------------------------------------------------------------------------
-- How a reading runs
-- ---------------------------------------------------------------------------

namespace File

variable {f : File}

/-- The value that a handle shows for the bytes that it delivers. -/
def shown (f : File) (tag : Tag) (raw : List UInt8) : Except Cause Value :=
  match f.mode with
  | .binary => .ok (.bytes tag raw)
  | .text => (f.present raw).map fun cs => .str tag (.ofChars cs)

/-- The handle is open, in a mode, on a device without faults. -/
structure Sound (f : File) (mode : FileMode) : Prop where
  mode_eq : f.mode = mode
  isOpen : f.isOpen = true
  failure_eq : f.failure = none

theorem Sound.deliver {mode : FileMode} (sound : f.Sound mode) (complete : Bool)
    (taken rest : List UInt8) :
    f.deliver complete taken rest = (.ok taken, { f with pending := rest }) := by
  simp [File.deliver, sound.isOpen, sound.failure_eq]

theorem Sound.shown_binary (sound : f.Sound .binary) (tag : Tag) (raw : List UInt8) :
    f.shown tag raw = .ok (.bytes tag raw) := by rw [shown, sound.mode_eq]

theorem Sound.shown_text (sound : f.Sound .text) (tag : Tag) (raw : List UInt8) :
    f.shown tag raw = (f.present raw).map fun cs => .str tag (.ofChars cs) := by
  rw [shown, sound.mode_eq]

theorem deliver_of_closed (closed : f.isOpen = false) (complete : Bool)
    (taken rest : List UInt8) : f.deliver complete taken rest = (.error .closedFile, f) := by
  simp [deliver, closed]

end File

section
variable {s : Session} {r : Ref .file} {f : File} {o : Reading} {n : Option Nat}
  {got rest : List UInt8} {mode : FileMode}

/-- What is made of the outcome of an action. -/
theorem runOn_map {α β : Type} {a : Action α} {x : Except Cause α} {t : Session} (g : α → β)
    (run : a.runOn s = (x.mapError .cause, t)) :
    (do return g (← a)).runOn s = ((x.map g).mapError .cause, t) := by
  cases x with
  | ok y => exact runOn_bind_of_ok run _
  | error c => exact runOn_bind_of_error run _

/-- The handle is left as the reading leaves it, and shows what it took. -/
theorem runOn_readWith (hf : s.heap.file r = f)
    (reading : File → Except Cause (List UInt8) × File) :
    ∃ tag t, t.heap.file r = (reading f).2 ∧ (readWith r reading).runOn s =
      (((reading f).1.bind (f.shown tag)).mapError .cause, t) := by
  have opened : (readFile r).runOn s = (.ok f, s) := by
    rw [← hf]
    rfl
  rw [readWith, runOn_bind_of_ok opened]
  obtain ⟨outcome, after⟩ := reading f
  let t : Session := { s with heap := s.heap.putFile r after }
  have written : (writeFile r after).runOn s = (.ok (), t) := rfl
  have left : t.heap.file r = after := Heap.file_putFile ..
  dsimp only
  rw [runOn_bind_of_ok written]
  cases outcome with
  | error c => exact ⟨Tag.shared, t, left, rfl⟩
  | ok raw =>
    have taken : (liftM (.ok raw : Except Cause (List UInt8)) : Action (List UInt8)).runOn t =
      (.ok raw, t) := rfl
    rw [runOn_bind_of_ok taken]
    simp only [Except.bind, File.shown]
    cases f.mode with
    | binary => exact ⟨s.heap.fresh, t.tick, left, rfl⟩
    | text =>
      cases f.present raw with
      | ok cs =>
        obtain ⟨tag, fresh, run⟩ := runOn_newChars cs t
        exact ⟨tag, t.reach fresh, left, run⟩
      | error c => exact ⟨Tag.shared, t, left, rfl⟩

namespace Reading

/-- What a reading does with the state of a handle. -/
def onFile (o : Reading) (n : Option Nat) (f : File) : Except Cause (List UInt8) × File :=
  match o with
  | .read _ => f.read n
  | _ => f.readLine

theorem onFile_of_takes (sound : f.Sound mode) (takes : o.Takes f.pending got rest) :
    ∃ n, o.AsksFor n ∧ o.onFile n f = (.ok got, { f with pending := rest }) := by
  cases takes with
  | readLine line | next line =>
    refine ⟨none, trivial, ?_⟩
    simp only [onFile, File.readLine, File.splitLine_of_line line]
    exact sound.deliver ..
  | all asks | count asks => exact ⟨_, asks, sound.deliver ..⟩

theorem onFile_of_closed (o : Reading) (n : Option Nat) (closed : f.isOpen = false) :
    o.onFile n f = (.error .closedFile, f) := by
  cases o with
  | read size => cases n <;> exact File.deliver_of_closed closed ..
  | readLine | next => exact File.deliver_of_closed closed ..

theorem sizeOf_int? {size : Option Value} (asks : Asks size n) :
    ∃ m, (Arguments.mk size.toList ∅).int? 0 = .ok m ∧ FileMethod.sizeOf m = n := by
  cases asks with
  | absent | none => exact ⟨none, rfl, rfl⟩
  | @negative v m number negative =>
    cases v with
    | int | bool =>
      cases number
      exact ⟨_, rfl, if_pos negative⟩
    | _ => cases number
  | @count v m number count =>
    cases v with
    | int | bool =>
      cases number
      exact ⟨_, rfl, if_neg count⟩
    | _ => cases number

theorem nextLine_eq (r : Ref .file) :
    nextLine r = do return item? (← readWith r File.readLine) := by
  unfold nextLine
  refine congrArg (readWith r File.readLine >>= ·) (funext fun line => ?_)
  cases line with
  | bytes tag data => cases data <;> rfl
  | _ => rfl

theorem asks_of_int? {size : Option Value} {m : Option Int64}
    (number : (Arguments.mk size.toList ∅).int? 0 = .ok m) : Asks size (FileMethod.sizeOf m) := by
  have sized {v : Value} {i : Int64} (hv : v.asInt? = some i) :
      Asks (some v) (FileMethod.sizeOf (some i)) := by
    rw [FileMethod.sizeOf, Option.bind_some]
    split
    · next negative => exact .negative hv negative
    · next count => exact .count hv count
  cases size with
  | none =>
    cases number
    exact .absent
  | some v =>
    cases v with
    | none =>
      cases number
      exact .none
    | int | bool =>
      cases number
      exact sized rfl
    | _ => cases number

/-- A reading leaves the handle as it should and hands over what that shows. -/
theorem runOn_operation (mode : FileMode) (asks : o.AsksFor n) (hf : s.heap.file r = f) :
    ∃ tag t, t.heap.file r = (o.onFile n f).2 ∧ (o.operation (.file mode r)).action.runOn s =
      ((((o.onFile n f).1.bind (f.shown tag)).map o.hands).mapError .cause, t) := by
  cases o with
  | readLine =>
    obtain ⟨tag, t, left, run⟩ := runOn_readWith (s := s.tick) hf File.readLine
    refine ⟨tag, t, left, runOn_map _ ?_⟩
    exact (runOn_callMethod (m := .readLine) rfl rfl _ s).trans run
  | read size =>
    obtain ⟨m, number, rfl⟩ := sizeOf_int? asks
    obtain ⟨tag, t, left, run⟩ :=
      runOn_readWith (s := s.tick) hf (File.read · (FileMethod.sizeOf m))
    refine ⟨tag, t, left, runOn_map _ ?_⟩
    have checked : (liftM (Arguments.plain ⟨size.toList, ∅⟩ "read" 0 1) : Action Unit).runOn
        s.tick = (.ok (), s.tick) := by cases size <;> rfl
    refine (runOn_callMethod (m := .read) rfl rfl _ s).trans ?_
    refine (runOn_bind_of_ok checked _).trans ?_
    exact (runOn_bind_of_ok (runOn_lift_of_ok number _) _).trans run
  | next =>
    obtain ⟨tag, t, left, run⟩ := runOn_readWith hf File.readLine
    have stepped : (Action.next (.file mode r)).runOn s = (nextLine r).runOn s := rfl
    refine ⟨tag, t, left, ?_⟩
    have item := runOn_map item? run
    rw [← nextLine_eq, ← stepped] at item
    have both (x : Except Cause Value) : (x.map item?).map Option.toList = x.map (hands .next) := by
      cases x <;> rfl
    exact both _ ▸ runOn_map Option.toList item

theorem sized_of_runOn {vs : List Value} {t : Session}
    (run : (o.operation (.file mode r)).action.runOn s = (.ok vs, t)) : o.Sized := by
  cases o with
  | readLine | next => exact ⟨none, trivial⟩
  | read size =>
    obtain ⟨v, _, called, -⟩ := exists_of_runOn_bind run
    rw [runOn_callMethod (m := .read) rfl rfl] at called
    obtain ⟨_, _, -, read⟩ := exists_of_runOn_bind called
    obtain ⟨m, _, number, -⟩ := exists_of_runOn_bind read
    exact ⟨_, asks_of_int? (of_runOn_lift number).1⟩

/-- A reading of an open handle hands over what the handle shows of the bytes
that it takes. -/
theorem runOn_of_takes (hf : s.heap.file r = f) (sound : f.Sound mode)
    (takes : o.Takes f.pending got rest) :
    ∃ tag t, t.heap.file r = { f with pending := rest } ∧
      (o.operation (.file mode r)).action.runOn s =
        (((f.shown tag got).map o.hands).mapError .cause, t) := by
  obtain ⟨n, asks, taken⟩ := onFile_of_takes sound takes
  obtain ⟨tag, t, left, run⟩ := runOn_operation mode asks hf
  rw [taken] at left run
  exact ⟨tag, t, left, run⟩

/-- What a reading that succeeds has done. -/
theorem of_runOn {vs : List Value} {t : Session} (hf : s.heap.file r = f) (sound : f.Sound mode)
    (run : (o.operation (.file mode r)).action.runOn s = (.ok vs, t)) :
    ∃ tag got rest v, o.Takes f.pending got rest ∧ f.shown tag got = .ok v ∧ vs = o.hands v ∧
      t.heap.file r = { f with pending := rest } := by
  obtain ⟨got, rest, takes⟩ := (sized_of_runOn run).exists_takes f.pending
  obtain ⟨tag, u, left, run'⟩ := runOn_of_takes hf sound takes
  rw [run'] at run
  cases shown : f.shown tag got with
  | ok v =>
    rw [shown] at run
    cases run
    exact ⟨tag, got, rest, v, takes, shown, rfl, left⟩
  | error c =>
    rw [shown] at run
    cases run

/-- A closed handle refuses, and stays as it is. -/
theorem runOn_of_closed (mode : FileMode) (sized : o.Sized) (hf : s.heap.file r = f)
    (closed : f.isOpen = false) :
    ∃ t, t.heap.file r = f ∧
      (o.operation (.file mode r)).action.runOn s = (.error (.cause .closedFile), t) := by
  obtain ⟨n, asks⟩ := sized
  obtain ⟨tag, t, left, run⟩ := runOn_operation mode asks hf
  rw [onFile_of_closed o n closed] at left run
  exact ⟨t, left, run⟩

end Reading

end

end ObjectModel
