import ObjectModel.Operator
import ObjectModel.Proofs.Run
import ObjectModel.Proofs.World.Basic

/-!
# What objects hold

The heap says what an object holds that may change. Writing to one object leaves
what the others hold, and an action that only makes objects leaves what all
objects hold that there were.

Main statement: `Builds.binary`, operators only make objects, and nothing that
needs a cell when they fail.
-/

namespace ObjectModel

/-- What an object holds besides what it is. -/
inductive Content where
  | list (items : List Value)
  | dict (entries : List (Key × Value))
  | set (keys : List Key)
  | bytearray (data : List UInt8)
  | cursor (place : Cursor)
  | file (state : File)
  | fixed

namespace Heap

variable (h : Heap)

def content : Value → Content
  | .list r => .list (h.list r)
  | .dict r => .dict (h.dict r).entries
  | .set r => .set (h.set r).keys
  | .bytearray r => .bytearray (h.bytearray r)
  | .cursor _ r => .cursor (h.cursor r)
  | .file _ r => .file (h.file r)
  | _ => .fixed

/-- The object has been made, if it is one that the heap stores. -/
def Stores (v : Value) : Prop :=
  ∀ shelf i, v.identity = .stored shelf i → i < h.extent shelf

variable {h} {v : Value}

theorem content_putList {r : Ref .list} (other : v.is (.list r) = false) (items : List Value) :
    (h.putList r items).content v = h.content v := by
  cases v with
  | list s =>
    refine congrArg Content.list (list_putList_of_ne h items ?_)
    rintro rfl
    simp [Value.is] at other
  | _ => rfl

theorem content_putSet {r : Ref .set} (other : v.is (.set r) = false) (keys : KeySet) :
    (h.putSet r keys).content v = h.content v := by
  cases v with
  | set s =>
    refine congrArg (fun s : KeySet => Content.set s.keys) (Store.get_set_ne _ _ fun same => ?_)
    simp [Value.is, Value.identity, same] at other
  | _ => rfl

theorem content_putBytearray {r : Ref .bytearray} (other : v.is (.bytearray r) = false)
    (data : List UInt8) : (h.putBytearray r data).content v = h.content v := by
  cases v with
  | bytearray s =>
    refine congrArg (fun a : Array UInt8 => Content.bytearray a.toList) (Store.get_set_ne _ _ fun same => ?_)
    simp [Value.is, Value.identity, same] at other
  | _ => rfl

end Heap

/-- The second store has the cells of the first, and maybe more. -/
def Store.Extends {α : Type} [Inhabited α] (s t : Store α) : Prop :=
  s.size ≤ t.size ∧ ∀ i < s.size, t.get i = s.get i

namespace Store.Extends

variable {α : Type} [Inhabited α] {s t u : Store α}

theorem refl (s : Store α) : s.Extends s := ⟨Nat.le_refl _, fun _ _ => rfl⟩

theorem trans (first : s.Extends t) (second : t.Extends u) : s.Extends u :=
  ⟨first.1.trans second.1, fun i hi =>
    (second.2 i (Nat.lt_of_lt_of_le hi first.1)).trans (first.2 i hi)⟩

theorem push (s : Store α) (x : α) : s.Extends (s.push x) :=
  ⟨(s.size_push x).symm ▸ Nat.le_succ s.size, fun _ hi => s.get_push_of_lt x hi⟩

end Store.Extends

/-- The second heap has the objects of the first as they were, and maybe more. -/
structure Heap.Adds (h h' : Heap) : Prop where
  lists : h.lists.Extends h'.lists
  dicts : h.dicts.Extends h'.dicts
  sets : h.sets.Extends h'.sets
  bytearrays : h.bytearrays.Extends h'.bytearrays
  cursors : h.cursors.Extends h'.cursors
  files : h.files.Extends h'.files

namespace Heap.Adds

variable {h h' h'' : Heap}

theorem refl (h : Heap) : h.Adds h := ⟨.refl _, .refl _, .refl _, .refl _, .refl _, .refl _⟩

theorem trans (first : h.Adds h') (second : h'.Adds h'') : h.Adds h'' where
  lists := first.lists.trans second.lists
  dicts := first.dicts.trans second.dicts
  sets := first.sets.trans second.sets
  bytearrays := first.bytearrays.trans second.bytearrays
  cursors := first.cursors.trans second.cursors
  files := first.files.trans second.files

/-- The objects that there were hold what they held. -/
theorem content_eq (adds : h.Adds h') {v : Value} (stores : h.Stores v) :
    h'.content v = h.content v := by
  cases v with
  | list r =>
    have cell := adds.lists.2 r.index (stores .list _ rfl)
    rw [content, content, list, list, cell]
  | dict r =>
    have cell := adds.dicts.2 r.index (stores .dict _ rfl)
    rw [content, content, dict, dict, cell]
  | set r =>
    have cell := adds.sets.2 r.index (stores .set _ rfl)
    rw [content, content, set, set, cell]
  | bytearray r =>
    have cell := adds.bytearrays.2 r.index (stores .bytearray _ rfl)
    rw [content, content, bytearray, bytearray, cell]
  | cursor form r =>
    have cell := adds.cursors.2 r.index (stores .cursor _ rfl)
    rw [content, content, cursor, cursor, cell]
  | file mode r =>
    have cell := adds.files.2 r.index (stores .file _ rfl)
    rw [content, content, file, file, cell]
  | _ => rfl

end Heap.Adds

/-- The sessions differ in the next tag alone. -/
def Session.Reaches (s t : Session) : Prop := ∃ fresh, t = s.reach fresh

instance : IsPreorder Session Session.Reaches where
  refl s := ⟨s.heap.fresh, rfl⟩
  trans _ _ _ := by
    rintro ⟨m, rfl⟩ ⟨n, rfl⟩
    exact ⟨n, rfl⟩

theorem Session.Reaches.adds {s t : Session} (reaches : s.Reaches t) : s.heap.Adds t.heap := by
  obtain ⟨fresh, rfl⟩ := reaches
  exact { Heap.Adds.refl s.heap with }

namespace Action

variable {α β : Type} {a : Action α} {f : α → Action β}

-- ---------------------------------------------------------------------------
-- Reading, and making what needs no cell
-- ---------------------------------------------------------------------------

namespace Within

open Session (Reaches)

theorem reaches_freshTag : Within Reaches freshTag := fun s => ⟨s.heap.fresh + 1, rfl⟩

theorem reaches_newInt (n : Int64) : Within Reaches (newInt n) :=
  bind (tagUnless reaches_freshTag _) fun _ => pure _

theorem reaches_newText (t : Text) : Within Reaches (newText t) :=
  bind (tagUnless reaches_freshTag _) fun _ => pure _

theorem reaches_newBytes (data : List UInt8) : Within Reaches (newBytes data) :=
  bind reaches_freshTag fun _ => pure _

theorem reaches_newTuple (items : List Value) : Within Reaches (newTuple items) :=
  bind (tagUnless reaches_freshTag _) fun _ => pure _

end Within

-- ---------------------------------------------------------------------------
-- Making objects
-- ---------------------------------------------------------------------------

/-- The action fills new cells at most, and none if it fails. -/
def Builds (a : Action α) : Prop := ∀ s : Session, match a.runOn s with
  | (.ok _, t) => s.heap.Adds t.heap
  | (.error _, t) => s.Reaches t

namespace Builds

open Within

theorem adds (builds : Builds a) (s : Session) : s.heap.Adds (a.runOn s).2.heap := by
  have built := builds s
  match run : a.runOn s with
  | (.ok x, t) =>
    rw [run] at built
    exact built
  | (.error e, t) =>
    rw [run] at built
    exact built.adds

theorem reaches (builds : Builds a) {s t : Session} {e : Fault} (run : a.runOn s = (.error e, t)) :
    s.Reaches t := by
  have built := builds s
  rwa [run] at built

theorem of_reaches (ha : Within Session.Reaches a) : Builds a := by
  intro s
  match run : a.runOn s with
  | (.ok x, t) => exact (ha.of_runOn run).adds
  | (.error e, t) => exact ha.of_runOn run

/-- Cells come last. -/
theorem bind (ha : Within Session.Reaches a) (hf : ∀ x, Builds (f x)) : Builds (a >>= f) := by
  intro s
  match run : a.runOn s with
  | (.ok x, t) =>
    have reached := ha.of_runOn run
    have built := hf x t
    rw [runOn_bind_of_ok run]
    match next : (f x).runOn t with
    | (.ok y, u) =>
      rw [next] at built
      exact reached.adds.trans built
    | (.error e, u) =>
      rw [next] at built
      exact trans_of Session.Reaches reached built
  | (.error e, t) =>
    rw [runOn_bind_of_error run]
    exact ha.of_runOn run

theorem throw (e : Fault) : Builds (throw e : Action α) := of_reaches (.throw e)

theorem newList (items : List Value) : Builds (newList items) := fun s =>
  { Heap.Adds.refl s.heap with lists := .push _ _ }

theorem newDict (t : Table) : Builds (newDict t) := fun s =>
  { Heap.Adds.refl s.heap with dicts := .push _ _ }

theorem newSet (keys : KeySet) : Builds (newSet keys) := fun s =>
  { Heap.Adds.refl s.heap with sets := .push _ _ }

theorem newBytearray (data : List UInt8) : Builds (newBytearray data) := fun s =>
  { Heap.Adds.refl s.heap with bytearrays := .push _ _ }

-- ---------------------------------------------------------------------------
-- Operators
-- ---------------------------------------------------------------------------

theorem ofArithmetic (r : Except Checked.Error Int64) : Builds (ofArithmetic r) := by
  cases r with
  | ok n => exact of_reaches (reaches_newInt n)
  | error e => exact throw _

theorem repeated (v count : Value) : Builds (repeated v count) := by
  cases v with
  | str tag t => exact bind (.lift _) fun _ => of_reaches (reaches_newText _)
  | bytes tag data => exact bind (.lift _) fun _ => of_reaches (reaches_newBytes _)
  | bytearray r => exact bind (.read _) fun _ => bind (.lift _) fun _ => newBytearray _
  | tuple tag items => exact bind (.lift _) fun _ => of_reaches (reaches_newTuple _)
  | list r => exact bind (.read _) fun _ => bind (.lift _) fun _ => newList _
  | _ => exact throw _

theorem concatenated (a b : Value) : Builds (concatenated a b) := by
  unfold Action.concatenated
  split
  · exact of_reaches (reaches_newText _)
  · exact of_reaches (reaches_newTuple _)
  · exact bind (.read _) fun _ => bind (.read _) fun _ => newList _
  · exact bind (.byteOperand _ _) fun _ => of_reaches (reaches_newBytes _)
  · exact bind (.read _) fun _ => bind (.byteOperand _ _) fun _ => newBytearray _
  · exact throw _

theorem binaryNumber (op : BinaryOp) (a : Value) (m : Int64) (b : Value) :
    Builds (binaryNumber op a m b) := by
  unfold Action.binaryNumber
  cases op.onInts? with
  | none => exact throw _
  | some g =>
    dsimp only
    split
    · exact of_reaches (.pure _)
    · split
      · exact ofArithmetic _
      · split
        · exact bind (reaches_newInt m) fun count => repeated _ count
        · exact throw _

theorem binarySequence (op : BinaryOp) (a b : Value) : Builds (binarySequence op a b) := by
  cases op with
  | add => exact concatenated a b
  | mul => exact repeated a b
  | _ => exact throw _

theorem binary (op : BinaryOp) (a b : Value) : Builds (binary op a b) := by
  cases a with
  | int tag m => exact binaryNumber op _ m b
  | bool x => exact binaryNumber op _ _ b
  | str tag t =>
    cases op with
    | add => exact concatenated (.str tag t) b
    | mul => exact repeated (.str tag t) b
    | mod =>
      refine bind .heap fun h => ?_
      cases Percent.format h t.chars b with
      | ok text => exact of_reaches (reaches_newText _)
      | error e => exact throw e
    | _ => exact throw _
  | tuple | list | bytes | bytearray => exact binarySequence op _ b
  | set r =>
    unfold Action.binary
    dsimp only
    split
    · exact bind (.setOperand _ b) fun _ => bind (.read _) fun _ => newSet _
    · exact throw _
  | dict r =>
    cases op with
    | or =>
      cases b with
      | dict s => exact bind (.read _) fun _ => bind (.read _) fun _ => newDict _
      | _ => exact throw _
    | _ => exact throw _
  | _ => exact throw _

end Builds

end Action

end ObjectModel
