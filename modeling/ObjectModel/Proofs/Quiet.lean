import ObjectModel.Proofs.Moves

/-!
# Quiet actions

A quiet action changes no list, dict, set or bytearray. No move does, so
iterating is quiet.

Main statements: `Quiet.next`, `Quiet.iter` and `Quiet.items`.
-/

namespace ObjectModel

namespace Action

variable {α : Type}

def Quiet (a : Action α) : Prop := ∀ s, (a.runOn s).2.heap.contents = s.heap.contents

theorem Quiet.dicts_eq {a : Action α} (ha : Quiet a) (s : Session) :
    (a.runOn s).2.heap.dicts = s.heap.dicts := congrArg (·.2.1) (ha s)

end Action

/-- The containers hold what they held. -/
def Session.SameContents (s t : Session) : Prop := t.heap.contents = s.heap.contents

instance : Session.Closed Session.SameContents where
  refl _ := rfl
  trans first second := second.trans first
  move step := step.contents_eq

namespace Action

variable {α β : Type}

theorem quiet_iff {a : Action α} : Quiet a ↔ Within Session.SameContents a := Iff.rfl

namespace Quiet

theorem pure (x : α) : Quiet (pure x : Action α) := quiet_iff.2 (.pure x)

theorem bind {a : Action α} {f : α → Action β} (ha : Quiet a) (hf : ∀ x, Quiet (f x)) :
    Quiet (a >>= f) := quiet_iff.2 (.bind ha hf)

theorem next (v : Value) : Quiet (next v) := quiet_iff.2 (.of_moves (.next v))

theorem iter (v : Value) : Quiet (iter v) := quiet_iff.2 (.of_moves (.iter v))

theorem items (v : Value) : Quiet (items v) := quiet_iff.2 (.items v)

theorem pairOf (index : Nat) (item : Value) : Quiet (DictMethod.pairOf index item) :=
  quiet_iff.2 (.pairOf index item)

theorem caught? (f : Fault) : Quiet (caught? f) := quiet_iff.2 (.caught? f)

theorem throw (f : Fault) : Quiet (throw f : Action α) := quiet_iff.2 (.throw f)

theorem lift (x : Except Cause α) : Quiet (liftM x : Action α) := quiet_iff.2 (.lift x)

theorem heap : Quiet heap := quiet_iff.2 .heap

theorem read (g : Heap → α) : Quiet (do return g (← Action.heap)) := quiet_iff.2 (.read g)

theorem newInt (n : Int64) : Quiet (newInt n) := quiet_iff.2 (.of_moves (.newInt n))

theorem newText (t : Text) : Quiet (newText t) := quiet_iff.2 (.of_moves (.newText t))

theorem newView (part : Part) (source : Ref .dict) : Quiet (newView part source) := fun _ => rfl

theorem fold {σ : Type} {step : σ → Value → Action (ForInStep σ)}
    (hstep : ∀ acc v, Quiet (step acc v)) (v : Value) (acc : σ) : Quiet (fold step v acc) :=
  quiet_iff.2 (.fold hstep v acc)

-- ---------------------------------------------------------------------------
-- Arguments that are read before anything is written
-- ---------------------------------------------------------------------------

theorem byteOperand (onto : Kind) (v : Value) : Quiet (byteOperand onto v) :=
  quiet_iff.2 (.byteOperand onto v)

theorem setOperand (symbol : String) (v : Value) : Quiet (setOperand symbol v) :=
  quiet_iff.2 (.setOperand symbol v)

theorem keysOf (source : Value) : Quiet (SetMethod.keysOf source) := by
  have collected : Quiet (Action.fold (fun (acc : List Key) v => do
      return .yield ((← Key.ofValue v) :: acc)) source []) :=
    fold (fun _ _ => bind (lift _) fun _ => pure _) source []
  cases source with
  | set r => exact bind (read (·.set r)) fun _ => pure _
  | _ => exact bind collected fun _ => pure _

theorem bytesOf (v : Value) : Quiet (BytesMethod.bytesOf v) := by
  refine bind heap fun h => ?_
  split
  · exact pure _
  · refine bind (fold (fun _ _ => ?_) v []) fun _ => pure _
    exact bind (lift _) fun _ => pure _

theorem decode (data : List UInt8) (k : Kind) (a : Arguments) :
    Quiet (BytesMethod.decode data k a) := by
  have strict : Quiet (BytesMethod.requireStrict k a) := by
    unfold BytesMethod.requireStrict
    split
    · refine bind (lift _) fun errors => ?_
      split
      · exact throw _
      · exact pure _
    · exact pure _
  refine bind (lift _) fun _ => bind (lift _) fun _ => bind (lift _) fun encoding => ?_
  exact bind strict fun _ => bind (lift _) fun _ => newText _

theorem lookup (r : Ref .dict) (k : Value) : Quiet (DictMethod.lookup r k) :=
  bind (lift _) fun _ => bind (read (·.dict r)) fun _ => pure _

end Quiet

end Action

end ObjectModel
