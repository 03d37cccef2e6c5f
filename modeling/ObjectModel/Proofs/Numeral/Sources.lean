import ObjectModel.Proofs.Encoding.RoundTrip
import ObjectModel.Proofs.Program.Basic
import ObjectModel.Proofs.Sequence.Search

/-!
# What integers are read from

A text spells an integer, and so do bytes and a bytearray through the text that they
decode to. With the base 10 given, texts and bytes read as they do without it; a
bytearray is then refused. The UTF-8 form of a text reads as the text does.

Main statement: `Construct.int_sources_agree`.
-/

namespace ObjectModel

namespace Action

variable {s : Session} {a b c : Action Value}

/-- The actions end with the same integer or with exceptions of one kind. -/
def SameInteger (s : Session) (a b : Action Value) : Prop :=
  (∃ n, a.Answers s n ∧ b.Answers s n) ∨ ∃ kind, a.Raises s kind ∧ b.Raises s kind

/-- How the action ends does not depend on the session. -/
def Settled (a : Action Value) : Prop :=
  (∃ n, ∀ s, a.Answers s n) ∨ ∃ kind, ∀ s, a.Raises s kind

/-- Actions that run as a settled one, the second maybe after tags have been used, end alike. -/
theorem Settled.same (settled : c.Settled) (fresh : Tag) (ha : a.runOn s = c.runOn s)
    (hb : b.runOn s = c.runOn (s.reach fresh)) : SameInteger s a b := by
  rcases settled with ⟨n, answers⟩ | ⟨kind, raises⟩
  · obtain ⟨v, tag, run, int⟩ := answers s
    obtain ⟨v', tag', run', int'⟩ := answers (s.reach fresh)
    exact .inl ⟨n, ⟨v, tag, ha.trans run, int⟩, v', tag', hb.trans run', int'⟩
  · obtain ⟨e, tag, run, he⟩ := raises s
    obtain ⟨e', tag', run', he'⟩ := raises (s.reach fresh)
    exact .inr ⟨kind, ⟨e, tag, ha.trans run, he⟩, e', tag', hb.trans run', he'⟩

end Action

namespace Construct

open ObjectModel.Action

variable {s : Session} {x b : Value} {cs : List Char} {base : Nat}

/-- What is read of a text in a base. -/
def reads (base : Nat) (cs : List Char) : Action Value := do newInt (← parsed base cs)

/-- What is read of a text in a base that is given as a value. -/
def readsIn (b : Value) (cs : List Char) : Action Value := do reads (← baseOf b) cs

/-- The text that a value is read as. -/
inductive ReadAs (h : Heap) : Value → List Char → Prop
  | text (tag : Tag) (t : Text) : ReadAs h (.str tag t) t.chars
  | bytes (tag : Tag) (data : List UInt8) : ReadAs h (.bytes tag data) (Utf8.decodeLossy data)
  | bytearray (r : Ref .bytearray) : ReadAs h (.bytearray r) (Utf8.decodeLossy (h.bytearray r))

theorem runOn_int (as : ReadAs s.heap x cs) :
    (call (.type .int) ⟨[x], ∅⟩).runOn s = (reads 10 cs).runOn s := by
  cases as <;> rfl

/-- With a base, a text and bytes are read and a bytearray is not. -/
theorem runOn_int_base (as : ReadAs s.heap x cs) (apart : x.kind ≠ .bytearray) (b : Value) :
    (call (.type .int) ⟨[x, b], ∅⟩).runOn s = (readsIn b cs).runOn s := by
  cases as with
  | text | bytes => rfl
  | bytearray => exact absurd rfl apart

theorem runOn_int_bytearray_base (r : Ref .bytearray) (hb : baseOf b = .ok base) (s : Session) :
    (call (.type .int) ⟨[.bytearray r, b], ∅⟩).runOn s = (.error (.cause .baseWithoutText), s) := by
  have called : (call (.type .int) ⟨[.bytearray r, b], ∅⟩).runOn s =
      (do newInt (← intFromBase (.bytearray r) (← baseOf b)) : Action Value).runOn s := rfl
  rw [called, runOn_bind_of_ok (runOn_lift_of_ok hb s)]
  rfl

theorem baseOf_of_valid {n : Int64} (hn : b.asInt? = some n) (valid : n = 0 ∨ 2 ≤ n ∧ n ≤ 36) :
    baseOf b = .ok n.toInt.toNat := by
  have int : Arguments.intOf b = .ok n := by rw [Arguments.intOf, hn]
  rw [baseOf, int]
  exact if_pos valid

theorem parsed_error_kind {c : Cause} (h : parsed base cs = .error c) :
    c.kind = .value ∨ c.kind = .overflow := by
  rw [parsed] at h
  split at h
  · cases h
  · cases h
    exact .inl rfl
  · cases h
    exact .inr rfl

/-- What is read is settled, and never by a `TypeError`. -/
theorem reads_outcome (base : Nat) (cs : List Char) :
    (∃ n, ∀ s, (reads base cs).Answers s n) ∨
    ∃ kind, (kind = .value ∨ kind = .overflow) ∧ ∀ s, (reads base cs).Raises s kind := by
  cases h : parsed base cs with
  | ok n =>
    refine .inl ⟨n.toInt, fun s => ?_⟩
    obtain ⟨tag, fresh, made⟩ := runOn_newInt n s
    exact ⟨_, fresh, (runOn_bind_of_ok (runOn_lift_of_ok h s) _).trans made, tag, n, rfl, rfl⟩
  | error c =>
    refine .inr ⟨c.kind, parsed_error_kind h, fun s => ⟨c, s.heap.fresh, ?_, rfl⟩⟩
    exact runOn_bind_of_error (runOn_lift_of_error h s) _

theorem settled_reads (base : Nat) (cs : List Char) : (reads base cs).Settled :=
  (reads_outcome base cs).imp_right fun ⟨kind, _, raises⟩ => ⟨kind, raises⟩

theorem settled_readsIn (b : Value) (cs : List Char) : (readsIn b cs).Settled := by
  cases hb : baseOf b with
  | ok base =>
    have read : readsIn b cs = reads base cs := by
      rw [readsIn, hb]
      rfl
    rw [read]
    exact settled_reads base cs
  | error c =>
    refine .inr ⟨c.kind, fun s => ⟨c, s.heap.fresh, ?_, rfl⟩⟩
    exact runOn_bind_of_error (runOn_lift_of_error hb s) _

theorem readsIn_of_valid {n : Int64} (hn : b.asInt? = some n) (valid : n = 0 ∨ 2 ≤ n ∧ n ≤ 36) :
    readsIn b cs = reads n.toInt.toNat cs := by
  rw [readsIn, baseOf_of_valid hn valid]
  rfl

/-- `int(x)` and `int(x, 10)` end with the same integer or with exceptions of one kind for a text
or bytes `x`. A bytearray is read as its bytes are, and never with a base. In every base the UTF-8
form of a text is read as the text is. -/
theorem int_sources_agree (s : Session) :
    (∀ x ten : Value, x.kind = .str ∨ x.kind = .bytes → ten.asInt? = some 10 →
      SameInteger s (call (.type .int) ⟨[x], ∅⟩) (call (.type .int) ⟨[x, ten], ∅⟩)) ∧
    (∀ r : Ref .bytearray,
      (∀ tag, SameInteger s (call (.type .int) ⟨[.bytearray r], ∅⟩)
        (call (.type .int) ⟨[.bytes tag (s.heap.bytearray r)], ∅⟩)) ∧
      ¬ (call (.type .int) ⟨[.bytearray r], ∅⟩).Raises s .type ∧
      ∀ (b : Value) (n : Int64), b.asInt? = some n → n = 0 ∨ 2 ≤ n ∧ n ≤ 36 →
        (call (.type .int) ⟨[.bytearray r, b], ∅⟩).Raises s .type) ∧
    ∀ (t : Text) (b : Value) (tag tag' : Tag),
      SameInteger s (call (.type .int) ⟨[.str tag t, b], ∅⟩)
        (do call (.type .int) ⟨[← call (.type .bytes)
          ⟨[.str tag t, .str tag' (.ofString "utf-8")], ∅⟩, b], ∅⟩) := by
  refine ⟨fun x ten texts hten => ?_, fun r => ⟨fun tag => ?_, ?_, fun b n hn valid => ?_⟩,
    fun t b tag tag' => ?_⟩
  · obtain ⟨cs, as, apart⟩ : ∃ cs, ReadAs s.heap x cs ∧ x.kind ≠ .bytearray := by
      cases x with
      | str tag t => exact ⟨_, .text tag t, nofun⟩
      | bytes tag data => exact ⟨_, .bytes tag data, nofun⟩
      | _ => rcases texts with h | h <;> cases h
    refine (settled_reads 10 cs).same s.heap.fresh (runOn_int as) ?_
    rw [runOn_int_base as apart, readsIn_of_valid hten (.inr (by decide))]
    rfl
  · exact (settled_reads 10 _).same s.heap.fresh (runOn_int (.bytearray r))
      (runOn_int (.bytes tag _))
  · rintro ⟨c, fresh, run, kind⟩
    rw [runOn_int (.bytearray r)] at run
    rcases reads_outcome 10 (Utf8.decodeLossy (s.heap.bytearray r)) with
      ⟨n, answers⟩ | ⟨k, other, raises⟩
    · obtain ⟨v, _, read, -⟩ := answers s
      cases run.symm.trans read
    · obtain ⟨c', _, read, hk⟩ := raises s
      cases run.symm.trans read
      rcases other with rfl | rfl <;> cases kind.symm.trans hk
  · exact ⟨_, s.heap.fresh, runOn_int_bytearray_base r (baseOf_of_valid hn valid) s, rfl⟩
  · refine (settled_readsIn b t.chars).same (s.heap.fresh + 1)
      (runOn_int_base (.text tag t) nofun b) ?_
    have made : (call (.type .bytes) ⟨[.str tag t, .str tag' (.ofString "utf-8")], ∅⟩).runOn s =
        (.ok (.bytes s.heap.fresh (Utf8.encode t.chars)), s.tick) :=
      runOn_callBytes tag tag' t (.ofString "utf-8") s
    have read := runOn_int_base (s := s.tick) (.bytes s.heap.fresh (Utf8.encode t.chars)) nofun b
    rw [Utf8.decodeLossy_encode] at read
    exact (runOn_bind_of_ok made _).trans read

/-- `int(b"12")` and `int(b"12", 10)`, and `int("é", 36)` and `int(bytes("é", "utf-8"), 36)`. A
bytearray is not read in base 16. -/
theorem int_sources_agree_of_digits :
    let s := Session.start [] false
    let digits := Value.bytes 0 [0x31, 0x32]
    let accent := Value.str 0 (.ofString "é")
    SameInteger s (call (.type .int) ⟨[digits], ∅⟩) (call (.type .int) ⟨[digits, .int 1 10], ∅⟩) ∧
    (call (.type .int) ⟨[.bytearray ⟨0⟩, .int 1 16], ∅⟩).Raises s .type ∧
    SameInteger s (call (.type .int) ⟨[accent, .int 1 36], ∅⟩)
      (do call (.type .int) ⟨[← call (.type .bytes)
        ⟨[accent, .str 2 (.ofString "utf-8")], ∅⟩, .int 1 36], ∅⟩) := by
  intro s digits accent
  obtain ⟨decimal, bytearrays, encoded⟩ := int_sources_agree s
  exact ⟨decimal digits (.int 1 10) (.inr rfl) rfl,
    (bytearrays ⟨0⟩).2.2 (.int 1 16) 16 rfl (.inr (by decide)), encoded _ (.int 1 36) 0 2⟩

/-- A program that has made `bytearray(b"12")`. -/
def dozen : Program := (Program.start [] false).run [.bytearray [0x31, 0x32]]

theorem reachable_dozen : dozen.Reachable := (Program.Reachable.start [] false).run (by decide)

/-- `int(bytearray(b"12"))` is 12, and `int(bytearray(b"12"), 10)` is a `TypeError`. -/
theorem not_same_integer_of_dozen :
    let s := dozen.session
    let x := Value.bytearray ⟨0⟩
    dozen.Reachable ∧ dozen.Holds x ∧ (call (.type .int) ⟨[x], ∅⟩).Answers s 12 ∧
    (call (.type .int) ⟨[x, .int 0 10], ∅⟩).Raises s .type ∧
    ¬ SameInteger s (call (.type .int) ⟨[x], ∅⟩) (call (.type .int) ⟨[x, .int 0 10], ∅⟩) := by
  intro s x
  have text : Utf8.decodeLossy (s.heap.bytearray ⟨0⟩) = ['1', '2'] :=
    Utf8.decodeLossy_encode ['1', '2']
  have read : (call (.type .int) ⟨[x], ∅⟩).runOn s = (.ok (.int Tag.shared 12), s) := by
    rw [runOn_int (.bytearray ⟨0⟩), text]
    rfl
  have refused : (call (.type .int) ⟨[x, .int 0 10], ∅⟩).runOn s =
      (.error (.cause .baseWithoutText), s) := rfl
  have answers : (call (.type .int) ⟨[x], ∅⟩).Answers s 12 :=
    ⟨_, s.heap.fresh, read, Tag.shared, 12, rfl, rfl⟩
  have raises : (call (.type .int) ⟨[x, .int 0 10], ∅⟩).Raises s .type :=
    ⟨_, s.heap.fresh, refused, rfl⟩
  refine ⟨reachable_dozen, .value (List.mem_singleton_self x), answers, raises, ?_⟩
  rintro (⟨n, -, v, fresh, run, -⟩ | ⟨kind, ⟨c, fresh, run, -⟩, -⟩)
  · cases refused.symm.trans run
  · cases read.symm.trans run

end Construct

end ObjectModel
