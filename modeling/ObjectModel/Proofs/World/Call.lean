import ObjectModel.Call.Basic
import ObjectModel.Proofs.World.Sequence

/-!
# Attributes and calls are safe

Main statements: `Safe.getAttr`, `Construct.safe_instanceOf`,
`Function.safe_call`, `Safe.call`, `Safe.callMethod` and `Safe.callBuiltin`.
-/

namespace ObjectModel

open ObjectModel.Action World

variable {w : World} {a : Arguments} {v : Value}

-- ---------------------------------------------------------------------------
-- Attributes
-- ---------------------------------------------------------------------------

namespace World

namespace Safe

theorem part? (hv : w.Has v) (name : String) : w.Safe (part? v name) := by
  have part {u : Value} (hu : u ∈ v.parts) : w.Has (some u) := has_some (w.parts hv hu)
  have made {mk : Action Value} (h : w.Safe mk) : w.Safe (do return some (← mk)) :=
    .bind h fun _ _ _ hx => .pure (has_some hx)
  unfold Action.part?
  split
  · exact made (.newInt _)
  · exact made (.newInt _)
  · exact made (.newInt _)
  · exact .pure (part (by simp [Value.parts]))
  · exact .pure (part (by simp [Value.parts]))
  · exact .pure (part (by simp [Value.parts]))
  · exact made (.newTuple fun _ => w.parts hv)
  · exact made (.newText _)
  · refine .pure (has_some (w.shared ?_))
    cases Kind.base? _ <;> rfl
  · exact made (.newText _)
  · exact (Keeps.readFile _).and_then fun _ _ => made (.newChars _)
  · exact made (.newText _)
  · exact (Keeps.readFile _).and_then fun _ _ => .pure (has_some (w.shared rfl))
  · exact .pure has_none

theorem getAttr (hv : w.Has v) (name : List Char) : w.Safe (getAttr v name) := by
  refine .bind (part? hv _) fun w' found le hf => ?_
  cases found with
  | some x => exact .pure (hf x rfl)
  | none =>
    dsimp only
    split
    · exact .newMethod (hv.mono le) _
    · split
      · exact .pure (w'.shared rfl)
      · exact .fail

theorem setAttr (v : Value) (name : List Char) (value : Value) : w.Safe (setAttr v name value) :=
  .unimplemented

theorem delAttr (v : Value) (name : List Char) : w.Safe (delAttr v name) := .unimplemented

theorem enter (hv : w.Has v) : w.Safe (enter v) := by
  cases v with
  | file mode r =>
    refine (Keeps.readFile r).and_then fun f _ => ?_
    split
    · exact .pure hv
    · exact .fail
  | _ => exact .unimplemented

theorem exit (hv : w.Has v) : w.Safe (exit v) := by
  cases v with
  | file mode r => exact (FileMethod.keeps_close hv).safe
  | _ => exact .unimplemented

end Safe

end World

-- ---------------------------------------------------------------------------
-- Constructors
-- ---------------------------------------------------------------------------

namespace Construct

theorem safe_bool (a : Arguments) : w.Safe (bool a) := by
  refine .lift_bind fun _ _ => ?_
  split
  · exact (Keeps.truth _).and_then fun _ _ => .pure (w.shared rfl)
  · exact .pure (w.shared rfl)

theorem safe_int (a : Arguments) : w.Safe (int a) := by
  refine .lift_bind fun _ _ => .lift_bind fun _ _ => .lift_bind fun base _ => ?_
  split
  · exact .newInt _
  · exact .fail
  · exact .heap_bind fun _ _ => .lift_bind fun _ _ => .newInt _
  · exact .lift_bind fun _ _ => .lift_bind fun _ _ => .newInt _

theorem safe_str (ha : w.Has a) : w.Safe (str a) := by
  refine .lift_bind fun _ _ => .lift_bind fun _ _ => ?_
  split
  · exact .newText _
  · next hp _ => exact .pure (ha.1 _ (hp ▸ List.mem_cons_self ..))
  · exact (Keeps.str _).and_then fun _ _ => .newChars _
  · refine .heap_bind fun h _ => ?_
    split
    · exact .lift_bind fun _ _ => .newChars _
    · exact .fail
  · exact .fail

theorem safe_byteSource (k : Kind) (ha : w.Has a) : w.Safe (byteSource k a) := by
  refine .lift_bind fun _ _ => .lift_bind fun _ _ => ?_
  split
  · exact .pure (has_bytes _)
  · exact (Keeps.lift fun _ _ => has_bytes _).safe
  · exact .fail
  · exact .fail
  · exact .fail
  · next v _ hv _ =>
    split
    · split
      · exact .fail
      · exact .pure (has_bytes _)
    · split
      · exact BytesMethod.safe_bytesOf (Arguments.has_get? ha _ _ _ hv)
      · exact .fail

theorem safe_list (ha : w.Has a) : w.Safe (list a) := by
  refine .lift_bind fun _ _ => ?_
  split
  · next hp =>
    exact .bind (.items (ha.1 _ (hp ▸ List.mem_cons_self ..))) fun _ _ _ has => .newList has
  · exact .newList has_nil

theorem safe_tuple (ha : w.Has a) : w.Safe (tuple a) := by
  refine .lift_bind fun _ _ => ?_
  split
  · next hp => exact .pure (ha.1 _ (hp ▸ List.mem_cons_self ..))
  · next hp =>
    exact .bind (.items (ha.1 _ (hp ▸ List.mem_cons_self ..))) fun _ _ _ has => .newTuple has
  · exact .newTuple has_nil

theorem safe_set (ha : w.Has a) : w.Safe (set a) := by
  refine .lift_bind fun _ _ => ?_
  split
  · next hp =>
    refine .bind (SetMethod.safe_keysOf (ha.1 _ (hp ▸ List.mem_cons_self ..))) ?_
    exact fun _ _ _ has => .newSet (KeySet.has_ofKeys has)
  · exact .newSet Keyed.has_empty

theorem safe_dict (ha : w.Has a) : w.Safe (dict a) := by
  refine .lift_bind fun _ _ => .bind (.newDict Keyed.has_empty) fun w' made le hm => ?_
  split
  · next r =>
    refine .bind (.forM (World.Has.mono ha.1 le) fun u v le' hv => ?_) fun u _ le' _ => ?_
    · exact DictMethod.safe_update (hm.mono le') hv
    · refine (DictMethod.keeps_putAll (hm.mono le') ?_).and_then fun _ _ => .pure (hm.mono le')
      exact World.Has.mono ha.2 (le_trans le le')
  · exact .pure hm

theorem safe_newRange (start stop step : Int64) : w.Safe (Construct.newRange start stop step) := by
  unfold Construct.newRange
  split
  · exact .newRange _
  · exact .fail

theorem safe_range (ha : w.Has a) : w.Safe (range a) := by
  refine .lift_bind fun _ _ => .bind (.mapM ha.1 fun _ _ _ _ => ?_) fun _ ints _ _ => ?_
  · exact (Keeps.lift fun _ _ => trivial).safe
  · split
    · exact safe_newRange _ _ _
    · exact safe_newRange _ _ _
    · exact safe_newRange _ _ _
    · exact .unimplemented

theorem safe_slice (ha : w.Has a) : w.Safe (slice a) := by
  have has {v : Value} (hv : v ∈ a.positional) : w.Has v := ha.1 v hv
  have nothing : w.Has Value.none := w.shared rfl
  refine .lift_bind fun _ _ => ?_
  split
  · next hp => exact .newSlice nothing (has (by simp [hp])) nothing
  · next hp => exact .newSlice (has (by simp [hp])) (has (by simp [hp])) nothing
  · next hp => exact .newSlice (has (by simp [hp])) (has (by simp [hp])) (has (by simp [hp]))
  · exact .unimplemented

theorem safe_object (a : Arguments) : w.Safe (object a) := by
  unfold object
  split
  · exact .fail_bind
  · exact .make (fun _ _ hx => by cases hx) (fun _ _ => trivial) fun _ _ => rfl

theorem safe_type (a : Arguments) : w.Safe (type a) := by
  unfold type
  split
  · exact .pure (w.shared rfl)
  · exact .unimplemented
  · exact .fail

theorem safe_backward (hv : w.Has v) : w.Safe (backward v) := by
  cases v with
  | str tag t => exact .pure has_nil
  | tuple tag items => exact .pure fun u hu => w.parts hv (List.mem_reverse.1 hu)
  | bytes tag data => exact .pure has_nil
  | list r => exact (Keeps.readList r).and_then fun _ _ => .pure (has_cons hv has_nil)
  | bytearray r => exact (Keeps.readBytearray r).and_then fun _ _ => .pure (has_cons hv has_nil)
  | range tag r => exact (Keeps.length _).and_then fun _ _ => .pure has_nil
  | dict r => exact .unimplemented
  | _ => exact .fail

theorem safe_reversed (ha : w.Has a) : w.Safe (reversed a) := by
  refine .lift_bind fun _ _ => ?_
  split
  · next hp =>
    exact .bind (safe_backward (ha.1 _ (hp ▸ List.mem_cons_self ..))) fun _ _ _ hc => .newCursor _ hc
  · exact .fail

theorem safe_zip (ha : w.Has a) : w.Safe (zip a) :=
  .lift_bind fun _ _ => .bind (.mapM ha.1 fun _ _ _ hv => .iter hv) fun _ _ _ has =>
    .newCursor _ has

theorem safe_enumerate (ha : w.Has a) : w.Safe (enumerate a) := by
  refine .lift_bind fun _ _ => .lift_bind fun _ _ => ?_
  split
  · exact .fail
  · next source hs =>
    refine .lift_bind fun start _ => .bind (.iter (Arguments.has_get? ha _ _ _ hs)) ?_
    exact fun _ it _ hit => .newCursor _ (has_cons hit has_nil)

theorem safe_error (e : ErrorKind) (ha : w.Has a) : w.Safe (error e a) := by
  unfold error
  split
  · exact .fail_bind
  · exact .bind (.newError e ha.1) fun _ _ _ h => .pure h

theorem safe_instanceOf (k : Kind) (ha : w.Has a) : w.Safe (instanceOf k a) := by
  unfold instanceOf
  split
  · exact safe_bool a
  · exact safe_int a
  · exact safe_str ha
  · exact .bind (safe_byteSource _ ha) fun _ _ _ _ => .newBytes _
  · exact .bind (safe_byteSource _ ha) fun _ _ _ _ => .newBytearray _
  · exact safe_list ha
  · exact safe_tuple ha
  · exact safe_set ha
  · exact safe_dict ha
  · exact safe_range ha
  · exact safe_slice ha
  · exact safe_object a
  · exact safe_type a
  · exact safe_reversed ha
  · exact safe_zip ha
  · exact safe_enumerate ha
  · exact safe_error _ ha
  · exact .fail

end Construct

-- ---------------------------------------------------------------------------
-- Built-in functions
-- ---------------------------------------------------------------------------

namespace Function

variable {apply : Apply}

theorem has_sole {name : String} (ha : w.Has a) (h : sole name a = .ok v) : w.Has v := by
  unfold sole at h
  cases hp : a.plain name 1 1 with
  | error c => rw [hp] at h; cases h
  | ok =>
    simp only [hp, bind, Except.bind] at h
    split at h
    · next hx => cases h; exact ha.1 _ (hx ▸ List.mem_cons_self ..)
    · cases h

theorem safe_anyTruth (sought : Bool) (hv : w.Has v) : w.Safe (anyTruth sought v) := by
  refine .fold (σ := Bool) hv trivial fun _ _ x _ _ _ => ?_
  refine (Keeps.truth x).and_then fun b _ => .pure ?_
  split <;> trivial

theorem safe_chr (a : Arguments) : w.Safe (chr a) := by
  refine .lift_bind fun v _ => .lift_bind fun n _ => ?_
  dsimp only
  split
  · exact .fail
  · split
    · exact .unimplemented
    · exact .newText _

theorem safe_ord (a : Arguments) : w.Safe (ord a) := by
  refine .lift_bind fun v _ => ?_
  split
  · split
    · exact .newInt _
    · exact .fail
  · refine .heap_bind fun h _ => ?_
    split
    · exact .newByte _
    · exact .fail
    · exact .fail

theorem safe_getattr (ha : w.Has a) : w.Safe (getattr a) := by
  refine .lift_bind fun _ _ => ?_
  split
  · next v tag name rest hp =>
    have has {x : Value} (hx : x ∈ v :: .str tag name :: rest) : w.Has x := ha.1 x (hp ▸ hx)
    have hv : w.Has v := has (List.mem_cons_self ..)
    split
    · exact .getAttr hv _
    · next fallback more =>
      refine .tryCatch (.getAttr hv _) fun w' e le he => ?_
      split
      · exact .pure (World.Has.mono (has (by simp)) le)
      · exact .throw he
  · exact .fail
  · exact .fail

theorem safe_len (a : Arguments) : w.Safe (len a) := by
  refine .lift_bind fun v _ => ?_
  split
  · exact (Keeps.length _).and_then fun _ _ => .newInt _
  · exact .fail

theorem safe_next (ha : w.Has a) : w.Safe (next a) := by
  refine .lift_bind fun _ _ => ?_
  split
  · next it rest hp =>
    have hit : w.Has it := ha.1 it (hp ▸ List.mem_cons_self ..)
    split
    · exact .fail_bind
    · refine .bind (.iter hit) fun w' cursor le _ => ?_
      split
      · exact .fail_bind
      · refine .bind (.next (hit.mono le)) fun w'' found le' hf => ?_
        split
        · exact .pure (hf _ rfl)
        · next fallback more =>
          have has : w.Has fallback := ha.1 fallback (hp ▸ by simp)
          exact .pure (has.mono (le_trans le le'))
        · exact .fail
  · exact .fail

theorem safe_print (a : Arguments) : w.Safe (print a) := by
  refine .lift_bind fun _ _ => ?_
  split
  · exact .unimplemented_bind
  · refine .lift_bind fun sep _ => .lift_bind fun stop _ => .heap_bind fun h _ => ?_
    exact (Keeps.print _).and_then fun _ _ => .pure (w.shared rfl)

theorem safe_sorted (hap : SafelyApplied apply) (ha : w.Has a) : w.Safe (sorted apply a) := by
  refine (SequenceMethod.keeps_sortOptions "sorted" ha).and_then fun (key, reverse) hk => ?_
  dsimp only
  split
  · next v hp =>
    have hv : w.Has v := ha.1 v (hp ▸ List.mem_singleton_self v)
    refine .bind (.items hv) fun w' items le has => ?_
    refine .bind (SequenceMethod.safe_sorted hap (World.Has.mono hk.1 le) reverse has) ?_
    exact fun _ _ _ has => .newList has
  · exact .fail

theorem safe_startOf (ha : w.Has a) : w.Safe (startOf a) := by
  unfold startOf
  split
  · next v hv => exact .pure (Arguments.has_get? ha _ _ v hv)
  · exact .newInt _

theorem safe_sum (ha : w.Has a) : w.Safe (sum a) := by
  refine .lift_bind fun _ _ => .lift_bind fun _ _ => .bind (safe_startOf ha) fun w' start le hs => ?_
  split
  · exact .fail
  · exact .fail
  · exact .fail
  · split
    · next hp =>
      refine .fold (World.Has.mono (ha.1 _ (hp ▸ List.mem_cons_self ..)) le) hs ?_
      exact fun _ _ _ _ hacc hx => .bind (.binary .add hacc hx) fun _ _ _ h => .pure h
    · exact .fail

theorem safe_scoreOf (hap : SafelyApplied apply) {key : Option Value} (hk : w.Has key)
    (hv : w.Has v) : w.Safe (scoreOf apply key v) := by
  cases key with
  | none => exact .pure hv
  | some f => exact hap (hk f rfl) hv

theorem safe_bestOf (hap : SafelyApplied apply) (which : Extreme) {key : Option Value}
    {best : Option (Value × Value)} {items : List Value} (hk : w.Has key) (hb : w.Has best)
    (has : w.Has items) : w.Safe (bestOf apply which key best items) := by
  induction items generalizing w best with
  | nil =>
    refine .pure fun v hv => ?_
    obtain ⟨entry, he, rfl⟩ := Option.map_eq_some_iff.1 hv
    exact (hb entry he).2
  | cons v vs ih =>
    obtain ⟨hv, has⟩ := List.forall_mem_cons.1 has
    have further {w' : World} {best : Option (Value × Value)} (le : w ≤ w') (hb : w'.Has best) :
        w'.Safe (bestOf apply which key best vs) :=
      ih (hk.mono le) hb (World.Has.mono has le)
    cases best with
    | none =>
      refine .bind (safe_scoreOf hap hk hv) fun w' score le hs => further le ?_
      exact has_some ⟨hs, hv.mono le⟩
    | some entry =>
      obtain ⟨score, best⟩ := entry
      refine .bind (safe_scoreOf hap hk hv) fun w' s le hs => ?_
      refine (Keeps.compare _ s score).and_then fun better _ => ?_
      split
      · exact further le (has_some ⟨hs, hv.mono le⟩)
      · exact further le (World.Has.mono hb le)

theorem safe_candidates (which : Extreme) (ha : w.Has a) : w.Safe (candidates which a) := by
  unfold candidates
  split
  · exact .fail
  · next v hp => exact .items (ha.1 v (hp ▸ List.mem_singleton_self v))
  · split
    · exact .fail
    · exact .pure ha.1

theorem safe_extreme (hap : SafelyApplied apply) (which : Extreme) (ha : w.Has a) :
    w.Safe (extreme apply which a) := by
  have key := Arguments.has_unlessNone (Arguments.has_keyword? ha "key")
  refine .lift_bind fun _ _ => .bind (safe_candidates which ha) fun w' items le has => ?_
  refine .bind (safe_bestOf hap which (World.Has.mono key le) has_none has) fun w'' best le' hb => ?_
  split
  · exact .pure (hb _ rfl)
  · next hd =>
    exact .pure (World.Has.mono (Arguments.has_keyword? ha "default" _ hd) (le_trans le le'))
  · exact .fail

theorem keeps_requireUtf8 (a : Arguments) : w.Keeps (requireUtf8 a) := by
  unfold requireUtf8
  split
  · split
    · exact .pure trivial
    · exact .throw trivial
  · exact .pure trivial

theorem safe_openPath (a : Arguments) : w.Safe (openPath a) := by
  refine .lift_bind fun _ _ => .lift_bind fun _ _ => ?_
  split
  · exact .fail
  · refine .lift_bind fun mode _ => (keeps_requireUtf8 a).and_then fun _ _ => ?_
    exact FileMethod.safe_openFile _ mode
  · exact .fail

theorem safe_call (hap : SafelyApplied apply) (f : Builtin) (ha : w.Has a) :
    w.Safe (Function.call apply f a) := by
  have truth (b : Bool) : w.Has (Value.bool b) := w.shared rfl
  cases f with
  | abs => exact .lift_bind fun _ _ => .unary _ _
  | all =>
    refine .lift_bind fun v hv => .bind (safe_anyTruth _ (has_sole ha hv)) fun _ _ _ _ => ?_
    exact .pure (World.shared _ rfl)
  | any =>
    refine .lift_bind fun v hv => .bind (safe_anyTruth _ (has_sole ha hv)) fun _ _ _ _ => ?_
    exact .pure (World.shared _ rfl)
  | chr => exact safe_chr a
  | getattr => exact safe_getattr ha
  | hash => exact .lift_bind fun _ _ => (Keeps.hash _).and_then fun _ _ => .newInt _
  | hex => exact .lift_bind fun _ _ => .lift_bind fun _ _ => .newChars _
  | isinstance => exact .lift_bind fun _ _ => .lift_bind fun _ _ => .pure (truth _)
  | issubclass => exact .lift_bind fun _ _ => .lift_bind fun _ _ => .pure (truth _)
  | iter => exact .lift_bind fun _ hv => .iter (has_sole ha hv)
  | len => exact safe_len a
  | max => exact safe_extreme hap _ ha
  | min => exact safe_extreme hap _ ha
  | next => exact safe_next ha
  | «open» => exact safe_openPath a
  | ord => exact safe_ord a
  | print => exact safe_print a
  | repr => exact .lift_bind fun _ _ => (Keeps.repr _).and_then fun _ _ => .newChars _
  | sorted => exact safe_sorted hap ha
  | sum => exact safe_sum ha

end Function

-- ---------------------------------------------------------------------------
-- Calls
-- ---------------------------------------------------------------------------

theorem Method.safe_call {apply : Function.Apply} (hap : SafelyApplied apply) (hv : w.Has v)
    (m : Method) (ha : w.Has a) : w.Safe (m.call apply v a) := by
  cases v with
  | str tag t => exact TextMethod.safe_call t m ha
  | list r => exact SequenceMethod.safe_callList hap hv m ha
  | dict r => exact DictMethod.safe_call hv m ha
  | set r => exact SetMethod.safe_call hv m ha
  | tuple tag items => exact SequenceMethod.safe_callTuple items m a
  | bytes tag data => exact BytesMethod.safe_call data m a
  | bytearray r => exact BytesMethod.safe_callMutable hv m ha
  | file mode r => exact FileMethod.safe_call hv m a
  | _ => exact .unimplemented

namespace World.Safe

theorem callWith {apply : Function.Apply} (hap : SafelyApplied apply) (hv : w.Has v)
    (ha : w.Has a) : w.Safe (callWith apply v a) := by
  cases v with
  | type k => exact Construct.safe_instanceOf k ha
  | builtin f => exact Function.safe_call hap f ha
  | method tag receiver m =>
    exact Method.safe_call hap (w.parts hv (List.mem_singleton_self receiver)) m ha
  | _ => exact .unimplemented

end World.Safe

theorem safelyApplied_applyKey : SafelyApplied applyKey := fun _ _ _ hf hv =>
  .callWith (fun _ _ _ _ _ => .throw trivial) hf
    ⟨List.forall_mem_singleton.2 hv, Keyed.has_empty⟩

namespace World.Safe

theorem call (hv : w.Has v) (ha : w.Has a) : w.Safe (call v a) :=
  callWith safelyApplied_applyKey hv ha

theorem callMethod (hv : w.Has v) (name : List Char) (ha : w.Has a) :
    w.Safe (callMethod v name a) :=
  .bind (.getAttr hv name) fun _ _ le hf => .call hf (ha.mono le)

theorem callBuiltin (name : String) (ha : w.Has a) : w.Safe (callBuiltin name a) := by
  unfold Action.callBuiltin
  split
  · next f hf =>
    refine .call (w.shared ?_) ha
    unfold builtinScope at hf
    split at hf
    · cases hf; rfl
    · obtain ⟨b, -, rfl⟩ := Option.map_eq_some_iff.1 hf
      rfl
  · exact .throw trivial

theorem argumentsOf (c : Cause) : w.Safe (argumentsOf c) := by
  unfold Action.argumentsOf
  split
  · exact .bind (.newText _) fun _ _ _ h => .pure (List.forall_mem_singleton.2 h)
  · exact .pure has_nil

theorem caught? {f : Fault} (hf : w.Has f) : w.Safe (caught? f) := by
  cases f with
  | raised e => exact .pure (has_some hf)
  | missingKey key =>
    exact .bind (.newError .key (List.forall_mem_singleton.2 hf)) fun _ _ _ h => .pure (has_some h)
  | cause c =>
    refine .bind (argumentsOf c) fun w' args _ ha => .bind (.newError c.kind ha) ?_
    exact fun _ _ _ h => .pure (has_some h)
  | gap g => exact .pure has_none
  | unbounded => exact .pure has_none

theorem faultOf (hv : w.Has v) : w.Safe (faultOf v) := by
  unfold Action.faultOf
  split
  · exact Safe.pure (x := Fault.raised _) hv
  · exact .bind (.newError _ has_nil) fun _ _ _ h => Safe.pure (x := Fault.raised _) h
  · exact Safe.pure (x := Fault.cause _) trivial

end World.Safe

end ObjectModel
