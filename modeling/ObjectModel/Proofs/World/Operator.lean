import ObjectModel.Operator
import ObjectModel.Proofs.World.Access

/-!
# Operators are safe

What an operator yields is its left operand, an object held by an operand, or one
made anew.

Main statements: `Safe.unary`, `Safe.binary` and `Safe.inPlace`.
-/

namespace ObjectModel

open ObjectModel.Action

namespace World

variable {w : World}

theorem has_repeatItems {xs : List Value} (has : w.Has xs) (n : Nat) :
    w.Has (repeatItems n xs) := by
  unfold repeatItems
  split
  · exact has_nil
  · intro x hx
    obtain ⟨ys, hys, hx⟩ := List.mem_flatten.1 hx
    cases List.eq_of_mem_replicate hys
    exact has x hx

namespace Keeps

theorem byteOperand (onto : Kind) (v : Value) : w.Keeps (byteOperand onto v) :=
  heap_bind fun _ _ => by
    split
    · exact pure fun _ _ => trivial
    · exact fail

theorem setOperand (symbol : String) (b : Value) : w.Keeps (setOperand symbol b) := by
  cases b with
  | set s => exact readSet s
  | _ => exact fail

end Keeps

/-- A set operator has no keys but those of its operands. -/
theorem has_onSets {op : BinaryOp} {f : KeySet → KeySet → KeySet} (h : op.onSets? = some f)
    {s t : KeySet} (hs : w.Has s) (ht : w.Has t) : w.Has (f s t) := by
  cases op with
  | or => cases h; exact KeySet.has_union hs ht
  | and => cases h; exact KeySet.has_filter hs _
  | sub => cases h; exact KeySet.has_filter hs _
  | xor => cases h; exact KeySet.has_symmDiff hs ht
  | _ => cases h

theorem has_inSets {op : BinaryOp} {f : KeySet → KeySet → KeySet} (h : op.inSets? = some f)
    {s t : KeySet} (hs : w.Has s) (ht : w.Has t) : w.Has (f s t) := by
  cases op with
  | or => cases h; exact KeySet.has_addAll hs (Keyed.has_keys ht)
  | and => cases h; exact KeySet.has_retain hs _
  | sub => cases h; exact KeySet.has_retain hs _
  | xor => cases h; exact KeySet.has_symmDiff hs ht
  | _ => cases h

namespace Safe

theorem ofArithmetic (r : Except Checked.Error Int64) : w.Safe (ofArithmetic r) := by
  cases r with
  | ok n => exact newInt n
  | error e => cases e <;> exact throw trivial

theorem unary (op : UnaryOp) (v : Value) : w.Safe (unary op v) := by
  unfold Action.unary
  cases v.asInt? with
  | none => exact unimplemented
  | some n =>
    cases op with
    | invert => exact newInt _
    | pos => exact newInt _
    | neg => exact ofArithmetic _
    | abs => exact ofArithmetic _

theorem repeated {v : Value} (hv : w.Has v) (count : Value) : w.Safe (repeated v count) := by
  cases v with
  | str tag t => exact lift_bind fun _ _ => newText _
  | bytes tag data => exact lift_bind fun _ _ => newBytes _
  | bytearray r =>
    exact (Keeps.readBytearray r).and_then fun _ _ => lift_bind fun _ _ => newBytearray _
  | tuple tag items =>
    have has : w.Has items := fun _ => w.parts hv
    exact lift_bind fun n _ => newTuple (has_repeatItems has n)
  | list r =>
    exact (Keeps.readList r).and_then fun items has => lift_bind fun n _ =>
      newList (has_repeatItems has n)
  | _ => exact unimplemented

theorem concatenated {a b : Value} (ha : w.Has a) (hb : w.Has b) : w.Safe (concatenated a b) := by
  unfold Action.concatenated
  split
  · exact newText _
  · exact newTuple (has_append (fun _ => w.parts ha) fun _ => w.parts hb)
  · exact (Keeps.readList _).and_then fun xs hx => (Keeps.readList _).and_then fun ys hy =>
      newList (has_append hx hy)
  · exact (Keeps.byteOperand _ _).and_then fun _ _ => newBytes _
  · exact (Keeps.readBytearray _).and_then fun _ _ =>
      (Keeps.byteOperand _ _).and_then fun _ _ => newBytearray _
  · exact fail

theorem binaryNumber (op : BinaryOp) {a b : Value} (m : Int64) (hb : w.Has b) :
    w.Safe (binaryNumber op a m b) := by
  unfold Action.binaryNumber
  cases op.onInts? with
  | none => exact unimplemented
  | some f =>
    dsimp only
    split
    · exact pure (w.shared rfl)
    · split
      · exact ofArithmetic _
      · split
        · exact bind (newInt m) fun _ count le _ => repeated (hb.mono le) count
        · exact fail

theorem binarySequence (op : BinaryOp) {a b : Value} (ha : w.Has a) (hb : w.Has b) :
    w.Safe (binarySequence op a b) := by
  cases op with
  | add => exact concatenated ha hb
  | mul => exact repeated ha b
  | _ => exact unimplemented

theorem binary (op : BinaryOp) {a b : Value} (ha : w.Has a) (hb : w.Has b) :
    w.Safe (binary op a b) := by
  cases a with
  | int tag m => exact binaryNumber op m hb
  | bool x => exact binaryNumber op _ hb
  | str tag t =>
    cases op with
    | add => exact concatenated ha hb
    | mul => exact repeated ha b
    | mod =>
      refine heap_bind fun h _ => ?_
      cases hr : Percent.format h t.chars b with
      | ok text => exact newChars text
      | error f => exact throw (has_of_isPlain (Percent.isPlain_of_render hr))
    | _ => exact unimplemented
  | tuple tag items => exact binarySequence op ha hb
  | list r => exact binarySequence op ha hb
  | bytes tag data => exact binarySequence op ha hb
  | bytearray r => exact binarySequence op ha hb
  | set r =>
    unfold Action.binary
    dsimp only
    split
    · next f hf =>
      exact (Keeps.setOperand _ b).and_then fun theirs ht => (Keeps.readSet r).and_then fun ours ho =>
        newSet (has_onSets hf ho ht)
    · exact unimplemented
  | dict r =>
    cases op with
    | or =>
      cases b with
      | dict s =>
        exact (Keeps.readDict r).and_then fun t ht => (Keeps.readDict s).and_then fun u hu =>
          newDict (Keyed.has_merge ht hu)
      | _ => exact fail
    | _ => exact unimplemented
  | _ => exact unimplemented

theorem extendList {r : Ref .list} (hr : w.Has (Value.list r)) {v : Value} (hv : w.Has v) :
    w.Safe (extendList r v) := by
  have write (w' : World) (extra : List Value) (le : w ≤ w') (has : w'.Has extra) :
      w'.Safe (appendList r extra) := (Keeps.appendList (hr.mono le) has).safe
  cases v with
  | list s => exact (Keeps.readList s).and_then fun extra has => write w extra (le_refl w) has
  | _ => exact bind (items hv) write

theorem inPlace (op : BinaryOp) {a b : Value} (ha : w.Has a) (hb : w.Has b) :
    w.Safe (inPlace op a b) := by
  unfold Action.inPlace
  split
  · exact bind (extendList ha hb) fun _ _ le _ => pure (ha.mono le)
  · refine (Keeps.readList _).and_then fun items has => lift_bind fun n _ => ?_
    exact (Keeps.writeList ha (has_repeatItems has n)).and_then fun _ _ => pure ha
  · refine (Keeps.byteOperand _ _).and_then fun extra _ => ?_
    exact (Keeps.appendBytearray ha extra).and_then fun _ _ => pure ha
  · split
    · next f hf =>
      refine (Keeps.setOperand _ b).and_then fun theirs ht => ?_
      refine (Keeps.readSet _).and_then fun ours ho => ?_
      exact (Keeps.writeSet ha (has_inSets hf ho ht)).and_then fun _ _ => pure ha
    · exact binary op ha hb
  · exact binary op ha hb

end Safe

end World

end ObjectModel
