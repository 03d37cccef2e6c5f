import ObjectModel.Attribute
import ObjectModel.Proofs.World.Operator

/-!
# Methods are safe

What the methods of texts, byte sequences, dicts, sets and files yield and store
comes from their receivers and arguments or is made anew.

Main statements: `safe_call` in the namespace of each family of methods.
-/

namespace ObjectModel

open ObjectModel.Action

instance : Carries Arguments :=
  ⟨fun w a => w.Has a.positional ∧ w.Has a.keywords, fun le h =>
    ⟨World.Has.mono h.1 le, World.Has.mono h.2 le⟩⟩

namespace Arguments

open World

variable {w : World} {a : Arguments}

theorem has_at? (h : w.Has a) (position : Nat) : w.Has (a.at? position) := fun v hv =>
  h.1 v (List.mem_of_getElem? hv)

theorem has_keyword? (h : w.Has a) (key : String) : w.Has (a.keyword? key) := fun _ hv =>
  Table.has_findText? h.2 hv

theorem has_get? (h : w.Has a) (position : Nat) (key : String) : w.Has (a.get? position key) := by
  unfold get?
  cases hp : a.at? position with
  | some v => exact has_some (has_at? h position v hp)
  | none => exact has_keyword? h key

theorem has_unlessNone {o : Option Value} (h : w.Has o) : w.Has (unlessNone o) := fun v hv =>
  h v (Option.mem_filter_iff.1 hv).1

theorem has_getD {o : Option Value} (h : w.Has o) : w.Has (o.getD .none) := by
  cases o with
  | none => exact w.shared rfl
  | some v => exact h v rfl

end Arguments

open World

variable {w : World} {a : Arguments}

-- ---------------------------------------------------------------------------
-- Byte sequences
-- ---------------------------------------------------------------------------

namespace BytesMethod

theorem keeps_requireStrict (k : Kind) (a : Arguments) : w.Keeps (requireStrict k a) := by
  unfold requireStrict
  split
  · refine .lift_bind fun errors _ => ?_
    split
    · exact .unimplemented
    · exact .pure trivial
  · exact .pure trivial

theorem safe_decode (data : List UInt8) (k : Kind) (a : Arguments) : w.Safe (decode data k a) := by
  refine .lift_bind fun _ _ => .lift_bind fun _ _ => .lift_bind fun encoding _ => ?_
  exact (keeps_requireStrict k a).and_then fun _ _ => .lift_bind fun text _ => .newChars text

theorem safe_hex (data : List UInt8) (a : Arguments) : w.Safe (hex data a) :=
  .lift_bind fun _ _ => .newChars _

theorem safe_call (data : List UInt8) (m : Method) (a : Arguments) :
    w.Safe (BytesMethod.call data m a) := by
  cases m with
  | decode => exact safe_decode data .bytes a
  | hex => exact safe_hex data a
  | _ => exact .unimplemented

theorem safe_bytesOf {v : Value} (hv : w.Has v) : w.Safe (bytesOf v) := by
  refine .heap_bind fun h _ => ?_
  split
  · exact .pure (has_bytes _)
  · refine .bind (.fold hv (has_bytes []) fun _ _ _ _ _ _ => .lift_bind fun b _ => ?_) ?_
    · exact .pure (has_bytes _)
    · exact fun _ _ _ _ => .pure (has_bytes _)

theorem safe_callMutable {r : Ref .bytearray} (hr : w.Has (Value.bytearray r)) (m : Method)
    (ha : w.Has a) : w.Safe (callMutable r m a) := by
  unfold callMutable
  split
  · exact (Keeps.readBytearray r).and_then fun data _ => safe_decode data _ a
  · exact (Keeps.readBytearray r).and_then fun data _ => safe_hex data a
  · refine .lift_bind fun _ _ => .lift_bind fun b _ => ?_
    exact (Keeps.appendBytearray hr [b]).and_then fun _ _ => .pure (w.shared rfl)
  · next v hp =>
    have hv : w.Has v := ha.1 v (hp ▸ List.mem_singleton_self v)
    refine .lift_bind fun _ _ => .bind (safe_bytesOf hv) fun w' extra le _ => ?_
    exact (Keeps.appendBytearray (hr.mono le) extra).and_then fun _ _ => .pure (w'.shared rfl)
  · refine .lift_bind fun _ _ => ?_
    exact (Keeps.writeBytearray hr []).and_then fun _ _ => .pure (w.shared rfl)
  · exact .lift_bind fun _ _ => .pure (w.shared rfl)
  · exact .lift_bind fun _ _ => .pure (w.shared rfl)
  · exact .lift_bind fun _ _ => .pure (w.shared rfl)
  · exact .unimplemented

end BytesMethod

-- ---------------------------------------------------------------------------
-- Files
-- ---------------------------------------------------------------------------

namespace FileMethod

theorem keeps_close {mode : FileMode} {r : Ref .file} (hr : w.Has (Value.file mode r)) :
    w.Keeps (close r) :=
  .bind (.readFile r) fun f _ => .writeFile hr f.close

theorem safe_call {mode : FileMode} {r : Ref .file} (hr : w.Has (Value.file mode r)) (m : Method)
    (a : Arguments) : w.Safe (FileMethod.call r mode m a) := by
  cases m with
  | readLine => exact .lift_bind fun _ _ => .readWith hr _
  | read => exact .lift_bind fun _ _ => .lift_bind fun _ _ => .readWith hr _
  | close =>
    exact .lift_bind fun _ _ => (keeps_close hr).and_then fun _ _ => .pure (w.shared rfl)
  | _ => exact .unimplemented

theorem safe_openFile (path mode : List Char) : w.Safe (openFile path mode) := by
  unfold openFile
  split
  · exact .throw trivial
  · refine .session_bind fun s _ => ?_
    split
    · exact .fail
    · split
      · exact .fail
      · exact .newFile _

end FileMethod

-- ---------------------------------------------------------------------------
-- Dicts
-- ---------------------------------------------------------------------------

namespace DictMethod

variable {r : Ref .dict} {k v : Value}

theorem keeps_putAll (hr : w.Has (Value.dict r)) {entries : Table} (has : w.Has entries) :
    w.Keeps (putAll r entries) :=
  .modifyDict hr fun _ ht => Keyed.has_merge ht has

theorem safe_pairOf (index : Nat) {item : Value} (hi : w.Has item) :
    w.Safe (pairOf index item) := by
  unfold pairOf
  split
  · exact .fail_bind
  · refine .bind (.items hi) fun w' parts le hp => ?_
    split
    · next k v =>
      obtain ⟨hk, hp⟩ := List.forall_mem_cons.1 hp
      refine (Keeps.lift_bind fun key he => ?_).safe
      have has : w'.Has (key, v) := ⟨Key.has_ofValue hk he, List.forall_mem_singleton.1 hp⟩
      exact .pure has
    · exact .fail

theorem safe_putPair (hr : w.Has (Value.dict r)) (index : Nat) {item : Value}
    (hi : w.Has item) : w.Safe (putPair r index item) := by
  refine .bind (safe_pairOf index hi) fun w' e le he => ?_
  have put := Keeps.modifyDict (hr.mono le) fun _ ht => Keyed.has_insert ht he.1 he.2
  exact put.and_then fun _ _ => .pure trivial

theorem safe_update (hr : w.Has (Value.dict r)) {source : Value} (hs : w.Has source) :
    w.Safe (update r source) := by
  unfold update
  split
  · exact (Keeps.readDict _).and_then fun t ht => (keeps_putAll hr ht).safe
  · refine .bind (.fold (σ := Nat) hs trivial fun w' index item le _ hi => ?_) ?_
    · exact safe_putPair (hr.mono le) index hi
    · exact fun _ _ _ _ => .pure trivial

theorem keeps_lookup (r : Ref .dict) (k : Value) : w.Keeps (lookup r k) :=
  .lift_bind fun _ _ => .bind (.readDict r) fun _ ht => .pure fun _ hv => Keyed.has_find? ht hv

theorem keeps_get {fallback : Option Value} (hf : w.Has fallback) : w.Keeps (get r k fallback) := by
  refine .bind (keeps_lookup r k) fun found hv => .pure ?_
  cases found with
  | none => exact Arguments.has_getD hf
  | some v => exact hv v rfl

theorem keeps_pop (hr : w.Has (Value.dict r)) (hk : w.Has k) {fallback : Option Value}
    (hf : w.Has fallback) : w.Keeps (pop r k fallback) := by
  refine .lift_bind fun key _ => .bind (.readDict r) fun t ht => ?_
  split
  · next v _ hv =>
    refine .bind (.modifyDict hr fun _ ht => Keyed.has_erase ht key) fun _ _ => .pure ?_
    exact Keyed.has_find? ht hv
  · exact .pure (hf _ rfl)
  · exact .throw hk

theorem keeps_setDefault (hr : w.Has (Value.dict r)) (hk : w.Has k) (hv : w.Has v) :
    w.Keeps (setDefault r k v) := by
  refine .lift_bind fun key he => .bind (.readDict r) fun t ht => ?_
  split
  · next found hf => exact .pure (Keyed.has_find? ht hf)
  · refine .bind (.modifyDict hr fun _ ht => ?_) fun _ _ => .pure hv
    exact Keyed.has_insert ht (Key.has_ofValue hk he) hv

theorem safe_view (hr : w.Has (Value.dict r)) (part : Part) (m : Method) (a : Arguments) :
    w.Safe (view r part m a) :=
  .lift_bind fun _ _ => .newView part hr

theorem safe_call (hr : w.Has (Value.dict r)) (m : Method) (ha : w.Has a) :
    w.Safe (DictMethod.call r m a) := by
  have first {k : Value} {rest : List Value} (hp : a.positional = k :: rest) : w.Has k :=
    ha.1 k (hp ▸ List.mem_cons_self ..)
  have second : w.Has (a.at? 1) := Arguments.has_at? ha 1
  cases m with
  | get =>
    refine .lift_bind fun _ _ => ?_
    split
    · exact (keeps_get second).safe
    · exact .fail
  | keys => exact safe_view hr .keys _ a
  | values => exact safe_view hr .values _ a
  | items => exact safe_view hr .items _ a
  | pop =>
    refine .lift_bind fun _ _ => ?_
    split
    · next hp => exact (keeps_pop hr (first hp) second).safe
    · exact .fail
  | setDefault =>
    refine .lift_bind fun _ _ => ?_
    split
    · next hp => exact (keeps_setDefault hr (first hp) (Arguments.has_getD second)).safe
    · exact .fail
  | update =>
    refine .lift_bind fun _ _ => .bind (.forM ha.1 fun w' v le => safe_update (hr.mono le)) ?_
    intro w' _ le _
    refine (keeps_putAll (hr.mono le) (World.Has.mono ha.2 le)).and_then fun _ _ => ?_
    exact .pure (w'.shared rfl)
  | clear =>
    refine .lift_bind fun _ _ => (Keeps.writeDict hr Keyed.has_empty).and_then fun _ _ => ?_
    exact .pure (w.shared rfl)
  | copy => exact .lift_bind fun _ _ => (Keeps.readDict r).and_then fun _ ht => .newDict ht
  | _ => exact .unimplemented

/-- The values of a part of a display. -/
def DisplayItem.parts : DisplayItem → List Value
  | .pair k v => [k, v]
  | .unpack source => [source]

instance : Carries DisplayItem := ⟨fun w d => w.Has d.parts, fun le h => h.mono le⟩

theorem keeps_tableOf {t : Table} (ht : w.Has t) {items : List DisplayItem}
    (has : w.Has items) : w.Keeps (tableOf t items) := by
  induction items generalizing t with
  | nil => exact .pure ht
  | cons item items ih =>
    obtain ⟨hi, hrest⟩ := List.forall_mem_cons.1 has
    cases item with
    | pair k v =>
      obtain ⟨hk, hv⟩ := List.forall_mem_cons.1 hi
      refine .lift_bind fun _ he => ih ?_ hrest
      exact Keyed.has_insert ht (Key.has_ofValue hk he) (List.forall_mem_singleton.1 hv)
    | unpack source =>
      cases source with
      | dict s => exact .bind (.readDict s) fun _ hs => ih (Keyed.has_merge ht hs) hrest
      | _ => exact .unimplemented

theorem safe_ofDisplay {items : List DisplayItem} (has : w.Has items) : w.Safe (ofDisplay items) :=
  (keeps_tableOf Keyed.has_empty has).and_then fun _ ht => .newDict ht

end DictMethod

-- ---------------------------------------------------------------------------
-- Sets
-- ---------------------------------------------------------------------------

namespace SetMethod

variable {r : Ref .set} {v : Value}

theorem safe_keysOf {source : Value} (hs : w.Has source) : w.Safe (keysOf source) := by
  unfold keysOf
  split
  · exact (Keeps.readSet _).and_then fun s hs => .pure (Keyed.has_keys hs)
  · refine .bind (.fold (σ := List Key) hs has_nil fun w' acc v le hacc hv => ?_) ?_
    · exact .lift_bind fun k hk => .pure (has_cons (Key.has_ofValue hv hk) hacc)
    · exact fun _ ks _ hks => .pure fun k hk => hks k (List.mem_reverse.1 hk)

theorem safe_update (hr : w.Has (Value.set r)) {source : Value} (hs : w.Has source) :
    w.Safe (update r source) :=
  .bind (safe_keysOf hs) fun _ _ le hk =>
    (Keeps.modifySet (hr.mono le) fun _ ht => KeySet.has_addAll ht hk).safe

theorem keeps_add (hr : w.Has (Value.set r)) (hv : w.Has v) : w.Keeps (add r v) :=
  .lift_bind fun _ he => .modifySet hr fun _ ht =>
    Keyed.has_insert ht (Key.has_ofValue hv he) trivial

theorem keeps_discard (hr : w.Has (Value.set r)) (v : Value) : w.Keeps (discard r v) :=
  .lift_bind fun key _ => .bind (.readSet r) fun _ _ =>
    .bind (.modifySet hr fun _ ht => Keyed.has_erase ht key) fun _ _ => .pure trivial

theorem keeps_remove (hr : w.Has (Value.set r)) (hv : w.Has v) : w.Keeps (remove r v) := by
  refine .bind (keeps_discard hr v) fun present _ => ?_
  cases present with
  | true => exact .pure trivial
  | false => exact .throw hv

theorem keeps_pop (hr : w.Has (Value.set r)) : w.Keeps (pop r) := by
  refine .bind (.readSet r) fun s hs => ?_
  split
  · exact .fail
  · next k rest hk =>
    have has : w.Has k := Keyed.has_keys hs k (hk ▸ List.mem_cons_self ..)
    exact .bind (.modifySet hr fun _ ht => Keyed.has_erase ht k) fun _ _ => .pure has

theorem safe_call (hr : w.Has (Value.set r)) (m : Method) (ha : w.Has a) :
    w.Safe (SetMethod.call r m a) := by
  have forEach {f : Value → Action Unit}
      (hf : ∀ w' v, w ≤ w' → w'.Has v → w'.Safe (f v)) :
      w.Safe (do a.positional.forM f; return Value.none) :=
    .bind (.forM ha.1 hf) fun w' _ _ _ => .pure (w'.shared rfl)
  cases m with
  | add =>
    exact .lift_bind fun _ _ => forEach fun _ _ le hv => (keeps_add (hr.mono le) hv).safe
  | discard =>
    refine .lift_bind fun _ _ => forEach fun _ v le hv => ?_
    exact (keeps_discard (hr.mono le) v).and_then fun _ _ => .pure trivial
  | remove =>
    exact .lift_bind fun _ _ => forEach fun _ _ le hv => (keeps_remove (hr.mono le) hv).safe
  | update => exact .lift_bind fun _ _ => forEach fun _ _ le hv => safe_update (hr.mono le) hv
  | clear =>
    refine .lift_bind fun _ _ => (Keeps.writeSet hr Keyed.has_empty).and_then fun _ _ => ?_
    exact .pure (w.shared rfl)
  | copy => exact .lift_bind fun _ _ => (Keeps.readSet r).and_then fun _ hs => .newSet hs
  | pop => exact .lift_bind fun _ _ => (keeps_pop hr).safe
  | _ => exact .unimplemented

theorem safe_ofValues {vs : List Value} (has : w.Has vs) : w.Safe (ofValues vs) := by
  refine .bind (.mapM has fun w' v _ hv => ?_) fun _ _ _ hk => .newSet (KeySet.has_ofKeys hk)
  exact (Keeps.lift fun _ he => Key.has_ofValue hv he).safe

end SetMethod

-- ---------------------------------------------------------------------------
-- Texts
-- ---------------------------------------------------------------------------

namespace TextMethod

theorem safe_join (separator : Text) {source : Value} (hs : w.Has source) :
    w.Safe (join separator source) := by
  refine .bind (.fold (σ := Nat × List (List Char)) hs ⟨trivial, fun _ _ => has_chars _⟩ ?_) ?_
  · intro w' acc v _ _ _
    split
    · exact .pure ⟨trivial, fun _ _ => has_chars _⟩
    · exact .fail
  · exact fun _ _ _ _ => .newChars _

theorem safe_newTexts (parts : List (List Char)) : w.Safe (newTexts parts) :=
  .bind (.mapM (fun _ _ => has_chars _) fun _ part _ _ => .newChars part) fun _ _ _ has =>
    .newList has

theorem safe_split (t : Text) (a : Arguments) : w.Safe (TextMethod.split t a) := by
  refine .lift_bind fun _ _ => .lift_bind fun _ _ => .lift_bind fun limit _ => ?_
  split
  · exact safe_newTexts _
  · split
    · exact .fail
    · exact safe_newTexts _
    · exact .unimplemented
  · exact .fail

theorem safe_strip (t : Text) (a : Arguments) : w.Safe (strip t a) := by
  refine .lift_bind fun _ _ => ?_
  split
  · exact .newChars _
  · exact .newChars _
  · exact .fail

theorem safe_affix (m : Method) (t : Text) (a : Arguments) : w.Safe (affix m t a) := by
  refine .lift_bind fun _ _ => ?_
  split
  · exact .pure (w.shared rfl)
  · exact .lift_bind fun _ _ => .pure (w.shared rfl)
  · exact .fail
  · exact .unimplemented

theorem safe_replace (t : Text) (a : Arguments) : w.Safe (replace t a) := by
  refine .lift_bind fun _ _ => ?_
  split
  · exact .lift_bind fun _ _ => .lift_bind fun _ _ => .lift_bind fun _ _ => .newChars _
  · exact .fail

theorem safe_find (t : Text) (a : Arguments) : w.Safe (find t a) := by
  refine .lift_bind fun (sub, start, stop) _ => ?_
  dsimp only
  split
  · exact .newInt _
  · exact .newInt _

theorem safe_count (t : Text) (a : Arguments) : w.Safe (count t a) :=
  .lift_bind fun _ _ => .newInt _

theorem safe_call (t : Text) (m : Method) (ha : w.Has a) : w.Safe (TextMethod.call t m a) := by
  cases m with
  | join =>
    refine .lift_bind fun _ _ => ?_
    split
    · next hp => exact safe_join t (ha.1 _ (hp ▸ List.mem_cons_self ..))
    · exact .fail
  | lower => exact .lift_bind fun _ _ => .newChars _
  | upper => exact .lift_bind fun _ _ => .newChars _
  | split => exact safe_split t a
  | strip => exact safe_strip t a
  | startsWith => exact safe_affix _ t a
  | endsWith => exact safe_affix _ t a
  | replace => exact safe_replace t a
  | find => exact safe_find t a
  | count => exact safe_count t a
  | _ => exact .unimplemented

end TextMethod

end ObjectModel
