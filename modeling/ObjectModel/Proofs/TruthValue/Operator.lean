import ObjectModel.Operator
import ObjectModel.Proofs.Run

/-!
# Truth values under operators

A truth value counts as 0 or as 1. Two actions end alike when both give related
results or both fail with exceptions of one kind, and leave the same session. An
operator ends alike on a truth value and on the integer that it counts as, on
either side; the one exception are formats, which may show the operand.

Main statements: `unary_eq_ofTruth`, `alike_binary_left`, `alike_binary_right` and
`runOn_format_truth`.
-/

namespace ObjectModel

open ObjectModel.Action

-- ---------------------------------------------------------------------------
-- Alike
-- ---------------------------------------------------------------------------

/-- The integer that a truth value counts as. -/
def Value.ofTruth (b : Bool) : Value := .int Tag.shared (if b then 1 else 0)

/-- The second value is the first, or the integer that this counts as. -/
inductive Value.CountsAs : Value → Value → Prop
  | refl (v : Value) : CountsAs v v
  | truth (b : Bool) : CountsAs (.bool b) (.ofTruth b)

/-- The faults are the same, exceptions of one kind, or both gaps. -/
inductive Fault.Alike : Fault → Fault → Prop
  | refl (e : Fault) : Alike e e
  | exception {e f : Fault} (k : ErrorKind) : e.kind? = some k → f.kind? = some k → Alike e f
  | gap (g g' : Gap) : Alike (.gap g) (.gap g')

namespace Action

variable {α β : Type} {R : α → α → Prop} {s : Session} {a b : Action α}

/-- Both actions succeed with related results, or their faults are alike. They leave one and
the same session. -/
inductive Alike (R : α → α → Prop) (s : Session) (a b : Action α) : Prop
  | ok {x y : α} {t : Session} : a.runOn s = (.ok x, t) → b.runOn s = (.ok y, t) → R x y →
    Alike R s a b
  | error {e f : Fault} {t : Session} : a.runOn s = (.error e, t) → b.runOn s = (.error f, t) →
    e.Alike f → Alike R s a b

namespace Alike

theorem of_runOn (refl : ∀ x, R x x) (same : a.runOn s = b.runOn s) : Alike R s a b := by
  match run : b.runOn s with
  | (.ok x, t) => exact .ok (same.trans run) run (refl x)
  | (.error e, t) => exact .error (same.trans run) run (.refl e)

theorem of_eq (refl : ∀ x, R x x) (same : a = b) : Alike R s a b :=
  of_runOn refl (congrArg (runOn · s) same)

theorem fail {c d : Cause} (kinds : c.kind = d.kind) :
    Alike R s (Action.fail c) (Action.fail d) :=
  .error rfl rfl (.exception d.kind (congrArg some kinds) rfl)

theorem unimplemented (op : String) (k l : Kind) :
    Alike R s (Action.unimplemented op k) (Action.unimplemented op l) :=
  .error rfl rfl (.gap ..)

end Alike

end Action

-- ---------------------------------------------------------------------------
-- Operators
-- ---------------------------------------------------------------------------

variable {s : Session}

/-- The logical operators on truth values are the bitwise ones on what they count as. -/
theorem BinaryOp.onInts?_of_onBools? {op : BinaryOp} {f : Bool → Bool → Bool}
    (logical : op.onBools? = some f) : ∃ g, op.onInts? = some g ∧ ∀ x y : Bool,
      g (if x then 1 else 0) (if y then 1 else 0) = .ok (if f x y then 1 else 0) := by
  cases op with
  | and | or | xor =>
    cases logical
    exact ⟨_, rfl, fun x y => by cases x <;> cases y <;> rfl⟩
  | _ => cases logical

theorem unary_eq_ofTruth (op : UnaryOp) (b : Bool) : unary op (.bool b) = unary op (.ofTruth b) :=
  rfl

theorem runOn_newInt_truth (b : Bool) (s : Session) :
    (newInt (if b then 1 else 0)).runOn s = (.ok (.ofTruth b), s) := by
  cases b <;> rfl

variable {op : BinaryOp} {a v : Value} {m : Int64}

theorem binaryNumber_of_none (none : op.onInts? = none) :
    binaryNumber op a m v = unimplemented op.name a.kind := by
  simp only [binaryNumber, none]

/-- Two truth values may stay truth values. -/
theorem binaryNumber_of_logical {g : Bool → Bool → Bool} (logical : op.onBools? = some g)
    (x y : Bool) : binaryNumber op (.bool x) m (.bool y) = pure (.bool (g x y)) := by
  obtain ⟨f, hf, -⟩ := op.onInts?_of_onBools? logical
  simp only [binaryNumber, hf, logical]

/-- All other operands are integers, a sequence to repeat, or refused. -/
theorem binaryNumber_of_not_logical {f : Int64 → Int64 → Except Checked.Error Int64}
    (hf : op.onInts? = some f) (plain : ∀ x y, a = .bool x → v = .bool y → op.onBools? = none) :
    binaryNumber op a m v =
      match v.asInt? with
      | some n => ofArithmetic (f m n)
      | none =>
        if op = .mul && v.isRepeatable then (do repeated v (← newInt m))
        else fail (.operands op.symbol a.kind v.kind) := by
  rw [binaryNumber, hf]
  dsimp only
  split
  · next x y g logical =>
    cases (plain x y rfl rfl).symm.trans logical
  · rfl

/-- A logical operator on two truth values, and on what one or both of them count as. -/
theorem alike_logical {g : Bool → Bool → Bool} (logical : op.onBools? = some g) (x y : Bool)
    (plain : ∀ x y, a = .bool x → v = .bool y → op.onBools? = none)
    (ha : v.asInt? = some (if y then 1 else 0)) :
    Alike Value.CountsAs s (binaryNumber op (.bool x) m (.bool y))
      (binaryNumber op a (if x then 1 else 0) v) := by
  obtain ⟨f, hf, word⟩ := op.onInts?_of_onBools? logical
  rw [binaryNumber_of_logical logical, binaryNumber_of_not_logical hf plain, ha]
  dsimp only
  rw [word, ofArithmetic]
  exact .ok (runOn_pure ..) (runOn_newInt_truth (g x y) s) (.truth _)

theorem alike_binaryNumber_left (op : BinaryOp) (b : Bool) (v : Value) :
    Alike Value.CountsAs s (binaryNumber op (.bool b) (if b then 1 else 0) v)
      (binaryNumber op (.ofTruth b) (if b then 1 else 0) v) := by
  cases hf : op.onInts? with
  | none =>
    rw [binaryNumber_of_none hf, binaryNumber_of_none hf]
    exact .unimplemented ..
  | some f =>
    by_cases logical : ∃ y g, v = .bool y ∧ op.onBools? = some g
    · obtain ⟨y, g, rfl, hg⟩ := logical
      exact alike_logical hg b y (fun _ _ h => by cases h) rfl
    · rw [binaryNumber_of_not_logical hf fun _ y _ hv => ?_,
        binaryNumber_of_not_logical hf fun _ _ h => by cases h]
      · cases v.asInt? with
        | some n => exact .of_eq .refl rfl
        | none =>
          dsimp only
          split
          · exact .of_eq .refl rfl
          · exact .fail rfl
      · exact Option.eq_none_iff_forall_ne_some.2 fun g hg => logical ⟨y, g, hv, hg⟩

theorem alike_binaryNumber_right (op : BinaryOp) (ha : a.asInt? = some m) (b : Bool) :
    Alike Value.CountsAs s (binaryNumber op a m (.bool b)) (binaryNumber op a m (.ofTruth b)) := by
  cases hf : op.onInts? with
  | none =>
    rw [binaryNumber_of_none hf, binaryNumber_of_none hf]
    exact .unimplemented ..
  | some f =>
    by_cases logical : ∃ x g, a = .bool x ∧ op.onBools? = some g
    · obtain ⟨x, g, rfl, hg⟩ := logical
      cases ha
      exact alike_logical hg x b (fun _ _ _ h => by cases h) rfl
    · rw [binaryNumber_of_not_logical hf fun x _ ha _ => ?_,
        binaryNumber_of_not_logical hf fun _ _ _ h => by cases h]
      · exact .of_eq .refl rfl
      · exact Option.eq_none_iff_forall_ne_some.2 fun g hg => logical ⟨x, g, ha, hg⟩

theorem alike_binary_left (op : BinaryOp) (b : Bool) (v : Value) :
    Alike Value.CountsAs s (binary op (.bool b) v) (binary op (.ofTruth b) v) :=
  alike_binaryNumber_left op b v

theorem repeated_eq_ofTruth (v : Value) (b : Bool) :
    repeated v (.bool b) = repeated v (.ofTruth b) := by
  cases v <;> rfl

theorem alike_concatenated (v : Value) (b : Bool) :
    Alike Value.CountsAs s (concatenated v (.bool b)) (concatenated v (.ofTruth b)) := by
  cases v with
  | bytes tag data => exact .error rfl rfl (.exception .type rfl rfl)
  | bytearray r => exact .error rfl rfl (.exception .type rfl rfl)
  | _ => exact .fail rfl

theorem alike_binarySequence (op : BinaryOp) (v : Value) (b : Bool) :
    Alike Value.CountsAs s (binarySequence op v (.bool b)) (binarySequence op v (.ofTruth b)) := by
  cases op with
  | add => exact alike_concatenated v b
  | mul => exact .of_eq .refl (repeated_eq_ofTruth v b)
  | _ => exact .unimplemented ..

/-- Only a format looks at more than the number that its operand is. -/
theorem alike_binary_right (op : BinaryOp) (v : Value) (b : Bool)
    (unformatted : op = .mod → v.kind ≠ .str) :
    Alike Value.CountsAs s (binary op v (.bool b)) (binary op v (.ofTruth b)) := by
  cases v with
  | int tag m => exact alike_binaryNumber_right op rfl b
  | bool x => exact alike_binaryNumber_right op rfl b
  | str tag t =>
    cases op with
    | add => exact alike_concatenated (.str tag t) b
    | mul => exact .of_eq .refl (repeated_eq_ofTruth (.str tag t) b)
    | mod => exact absurd rfl (unformatted rfl)
    | _ => exact .unimplemented ..
  | tuple | list | bytes | bytearray => exact alike_binarySequence op _ b
  | set r =>
    simp only [binary]
    split
    · exact .error rfl rfl (.exception .type rfl rfl)
    · exact .unimplemented ..
  | dict r =>
    cases op with
    | or => exact .fail rfl
    | _ => exact .unimplemented ..
  | _ => exact .unimplemented ..

-- ---------------------------------------------------------------------------
-- Formats
-- ---------------------------------------------------------------------------

/-- How a truth value is shown. -/
def Value.truthText (b : Bool) : List Char := if b then "True".toList else "False".toList

/-- How the integer is shown that a truth value counts as. -/
def Value.countText (b : Bool) : List Char := if b then ['1'] else ['0']

namespace Percent

theorem renderItem_truth (h : Heap) (zero : Bool) (width : Nat) (c : Conversion) (b : Bool) :
    (renderItem h zero width c (.bool b) = renderItem h zero width c (.ofTruth b)) ∨
    (c = .str ∨ c = .repr) ∧
      renderItem h zero width c (.bool b) = .ok (Numeral.padLeft ' ' width (Value.truthText b)) ∧
      renderItem h zero width c (.ofTruth b) =
        .ok (Numeral.padLeft ' ' width (Value.countText b)) := by
  cases c with
  | int style => exact .inl rfl
  | str => cases b <;> exact .inr ⟨.inl rfl, rfl, rfl⟩
  | repr => cases b <;> exact .inr ⟨.inr rfl, rfl, rfl⟩

/-- Either nothing shows the item, or it is shown once and the texts differ in that place. -/
theorem render_truth (h : Heap) (b : Bool) (ps : List Piece) :
    render h ps [.bool b] = render h ps [.ofTruth b] ∨
    ∃ zero width c before after, .conversion zero width c ∈ ps ∧ (c = .str ∨ c = .repr) ∧
      render h ps [.bool b] =
        .ok (before ++ Numeral.padLeft ' ' width (Value.truthText b) ++ after) ∧
      render h ps [.ofTruth b] =
        .ok (before ++ Numeral.padLeft ' ' width (Value.countText b) ++ after) := by
  induction ps with
  | nil => exact .inl rfl
  | cons p ps ih =>
    cases p with
    | literal d =>
      rw [render, render]
      rcases ih with same | ⟨zero, width, c, before, after, member, letter, left, right⟩
      · exact .inl (congrArg _ same)
      · rw [left, right]
        exact .inr ⟨zero, width, c, d :: before, after, List.mem_cons_of_mem _ member, letter, rfl,
          rfl⟩
    | conversion zero width c =>
      rw [render, render]
      rcases renderItem_truth h zero width c b with same | ⟨letter, left, right⟩
      · exact .inl (by rw [same])
      · rw [left, right]
        cases rest : render h ps [] with
        | error e => exact .inl rfl
        | ok after => exact .inr ⟨zero, width, c, [], after, List.mem_cons_self, letter, rfl, rfl⟩
    | incomplete | wideWidth | unknown => exact .inl rfl

end Percent

/-- A format runs alike, unless a `%s` or `%r` shows the truth value in it. -/
theorem runOn_format_truth (tag : Tag) (t : Text) (b : Bool) (s : Session) :
    (binary .mod (.str tag t) (.bool b)).runOn s = (binary .mod (.str tag t) (.ofTruth b)).runOn s ∨
    ∃ zero width c before after, .conversion zero width c ∈ Percent.pieces t.chars ∧
      (c = .str ∨ c = .repr) ∧
      (binary .mod (.str tag t) (.bool b)).runOn s = (newChars (before ++
        Numeral.padLeft ' ' width (Value.truthText b) ++ after)).runOn s ∧
      (binary .mod (.str tag t) (.ofTruth b)).runOn s = (newChars (before ++
        Numeral.padLeft ' ' width (Value.countText b) ++ after)).runOn s := by
  have run {v : Value} {text : List Char} (formatted : Percent.format s.heap t.chars v = .ok text) :
      (binary .mod (.str tag t) v).runOn s = (newChars text).runOn s := by
    rw [binary, runOn_bind_of_ok (runOn_heap s), formatted]
  rcases Percent.render_truth s.heap b (Percent.pieces t.chars) with
    same | ⟨zero, width, c, before, after, member, letter, left, right⟩
  · have formats : Percent.format s.heap t.chars (.bool b) =
        Percent.format s.heap t.chars (.ofTruth b) := same
    left
    rw [binary, binary, runOn_bind_of_ok (runOn_heap s), runOn_bind_of_ok (runOn_heap s), formats]
  · exact .inr ⟨zero, width, c, before, after, member, letter, run left, run right⟩

end ObjectModel
