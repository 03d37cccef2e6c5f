import Mathlib.Data.Set.Insert
import ObjectModel.Fault
import ObjectModel.Proofs.Cursor

/-!
# Worlds

A world is what there is at one moment of a program: the objects that have been
made, the next unused tag and the sizes of the stores. Among the objects of a
world an identity belongs to one object, and the small integers, the empty text
and the empty tuple are under the shared tag. A world models a heap when all that
the heap stores is made of its objects. Worlds grow; they never forget an object.
A world may also remember where cursors were. It then models the heaps alone in
which each of them has come from there step by step.

Main statements: `Value.inductParts` is induction over the parts of values, and
`Value.eq_of_isShared` tells apart the objects that are in every world.
-/

namespace ObjectModel

/-- The values that a value is directly made of. -/
def Value.parts : Value → List Value
  | .tuple _ items => items
  | .slice _ start stop step => [start, stop, step]
  | .view _ _ source => [.dict source]
  | .method _ receiver _ => [receiver]
  | .error _ _ args => args
  | _ => []

theorem Value.sizeOf_part {u v : Value} (h : u ∈ v.parts) : sizeOf u < sizeOf v := by
  cases v with
  | tuple tag items =>
    have : sizeOf u < sizeOf items := List.sizeOf_lt_of_mem h
    simp only [tuple.sizeOf_spec]
    omega
  | error tag e args =>
    have : sizeOf u < sizeOf args := List.sizeOf_lt_of_mem h
    simp only [error.sizeOf_spec]
    omega
  | slice tag x y z =>
    simp only [parts, List.mem_cons, List.not_mem_nil, or_false] at h
    rcases h with rfl | rfl | rfl <;> simp only [slice.sizeOf_spec] <;> omega
  | view tag part source =>
    cases List.mem_singleton.1 h
    have : 0 < sizeOf part := by cases part <;> exact Nat.one_pos
    simp only [view.sizeOf_spec, dict.sizeOf_spec]
    omega
  | method tag receiver m =>
    cases List.mem_singleton.1 h
    simp only [method.sizeOf_spec]
    omega
  | _ => cases h

/-- Induction over the parts of values. -/
@[elab_as_elim] theorem Value.inductParts {P : Value → Prop}
    (step : ∀ v : Value, (∀ u ∈ v.parts, P u) → P v) (v : Value) : P v :=
  step v fun u _ => inductParts step u
termination_by sizeOf v
decreasing_by exact sizeOf_part ‹_›

/-- The values that a cursor reads from or still yields. -/
def Cursor.parts : Cursor → List Value
  | .list source .. | .backwardList source _ => [.list source]
  | .dict _ source .. => [.dict source]
  | .backwardBytearray source _ => [.bytearray source]
  | .items rest => rest
  | .zip inputs _ => inputs
  | .enumerate input _ => [input]
  | .bytes _ | .text .. | .backwardText _ | .range .. | .backwardRange .. => []

/-- A bound on the steps that a step of an iterator takes, one within the other, if every
cursor steps older ones alone. -/
def Value.level : Value → Nat
  | .cursor _ r => r.index + 2
  | _ => 1

/-- Placed there, the cursor steps older iterators alone. -/
def Cursor.Ordered (c : Cursor) (r : Ref .cursor) : Prop := ∀ v ∈ c.inputs, v.level ≤ r.index + 1

/-- The objects that are always there. -/
def Value.isShared : Value → Bool
  | .none | .bool _ | .type _ | .builtin _ => true
  | .int tag n => tag == Tag.shared && isSmall n
  | .str tag t => tag == Tag.shared && t.isEmpty
  | .tuple tag items => tag == Tag.shared && items.isEmpty
  | _ => false

/-- The shared tag is on the small integers, the empty text and the empty tuple, and on
nothing else. -/
def Value.Interned : Value → Prop
  | .int tag n => tag = Tag.shared ↔ isSmall n = true
  | .str tag t => tag = Tag.shared ↔ t.isEmpty = true
  | .tuple tag items => tag = Tag.shared ↔ items.isEmpty = true
  | _ => True

theorem Value.interned_of_isShared {v : Value} (h : v.isShared = true) : v.Interned := by
  cases v with
  | int tag n | str tag t | tuple tag items =>
    obtain ⟨shared, present⟩ := Bool.and_eq_true_iff.1 h
    exact iff_of_true (eq_of_beq shared) present
  | _ => trivial

/-- A tuple with an item is under a tag of its own. -/
theorem Value.Interned.identity_of_mem {tag : Tag} {items : List Value} {v : Value}
    (interned : (Value.tuple tag items).Interned) (mem : v ∈ items) :
    (Value.tuple tag items).identity = .tagged tag :=
  if_neg fun shared => List.ne_nil_of_mem mem (List.isEmpty_iff.1 (interned.1 shared))

/-- The object with an identity that no object made anew has. -/
def Identity.holder? : Identity → Option Value
  | .none => some .none
  | .bool b => some (.bool b)
  | .smallInt n => some (.int Tag.shared n)
  | .emptyText => some (.str Tag.shared .empty)
  | .emptyTuple => some (.tuple Tag.shared [])
  | .type k => some (.type k)
  | .builtin f => some (.builtin f)
  | .tagged _ | .stored .. => Option.none

theorem Value.holder?_identity {v : Value} (h : v.isShared = true) :
    v.identity.holder? = some v := by
  cases v with
  | int tag n =>
    cases eq_of_beq (Bool.and_eq_true_iff.1 h).1
    rfl
  | str tag t =>
    obtain ⟨shared, empty⟩ := Bool.and_eq_true_iff.1 h
    cases eq_of_beq shared
    cases Text.ext_chars (t := .empty) (Text.isEmpty_iff.1 empty)
    rfl
  | tuple tag items =>
    obtain ⟨shared, empty⟩ := Bool.and_eq_true_iff.1 h
    cases eq_of_beq shared
    cases List.isEmpty_iff.1 empty
    rfl
  | none | bool b | type k | builtin f => rfl
  | _ => cases h

/-- Objects that are always there are told apart by their identities. -/
theorem Value.eq_of_isShared {u v : Value} (hu : u.isShared = true) (hv : v.isShared = true)
    (h : u.identity = v.identity) : u = v :=
  Option.some.inj <| calc
    some u = u.identity.holder? := (holder?_identity hu).symm
    _ = v.identity.holder? := congrArg Identity.holder? h
    _ = some v := holder?_identity hv

/-- The number of cells of a store. -/
def Heap.extent (h : Heap) : Shelf → Nat
  | .list => h.lists.size
  | .dict => h.dicts.size
  | .set => h.sets.size
  | .bytearray => h.bytearrays.size
  | .cursor => h.cursors.size
  | .file => h.files.size

/-- The objects made so far. -/
structure World where
  objects : Set Value
  /-- the next unused tag -/
  fresh : Tag
  /-- the sizes of the stores -/
  extent : Shelf → Nat
  /-- where a cursor has been -/
  seen : Ref .cursor → Cursor → Prop
  shared : ∀ {v : Value}, v.isShared → v ∈ objects
  interned : ∀ {v : Value}, v ∈ objects → v.Interned
  parts : ∀ {v u : Value}, v ∈ objects → u ∈ v.parts → u ∈ objects
  fresh_pos : Tag.shared < fresh
  tag_lt : ∀ {v : Value} {tag : Tag}, v ∈ objects → v.identity = .tagged tag → tag < fresh
  index_lt : ∀ {v : Value} {shelf : Shelf} {i : Nat},
    v ∈ objects → v.identity = .stored shelf i → i < extent shelf
  unique : ∀ {u v : Value}, u ∈ objects → v ∈ objects → u.identity = v.identity → u = v
  seen_lt : ∀ {r : Ref .cursor} {c : Cursor}, seen r c → r.index < extent .cursor

namespace World

instance : LE World := ⟨fun w w' => w.objects ⊆ w'.objects ∧ w'.seen = w.seen⟩

@[refl] theorem le_refl (w : World) : w ≤ w := ⟨Set.Subset.refl w.objects, rfl⟩

theorem le_trans {w w' w'' : World} (h : w ≤ w') (h' : w' ≤ w'') : w ≤ w'' :=
  ⟨Set.Subset.trans h.1 h'.1, h'.2.trans h.2⟩

/-- The cursor may be at a place: all places where it has been lead there, and it steps older
iterators alone. -/
structure Admits (w : World) (r : Ref .cursor) (c : Cursor) : Prop where
  leads : ∀ c₀, w.seen r c₀ → c₀.Leads c
  ordered : c.Ordered r

theorem Admits.step {w : World} {r : Ref .cursor} {c c' : Cursor} (h : w.Admits r c)
    (step : c.Step c') : w.Admits r c' where
  leads c₀ seen := (h.leads c₀ seen).tail step
  ordered v hv := h.ordered v (step.inputs_eq ▸ hv)

theorem Admits.mono {w w' : World} {r : Ref .cursor} {c : Cursor} (h : w.Admits r c)
    (le : w ≤ w') : w'.Admits r c where
  leads c₀ seen := h.leads c₀ (le.2 ▸ seen)
  ordered := h.ordered

end World

/-- Data that may hold values: all of them are objects of a world. -/
class Carries (α : Type) where
  Has : World → α → Prop
  mono : ∀ {w w' : World} {x : α}, w ≤ w' → Has w x → Has w' x

/-- All values in the data are objects of the world. -/
abbrev World.Has {α : Type} [Carries α] (w : World) (x : α) : Prop := Carries.Has w x

theorem World.Has.mono {α : Type} [Carries α] {w w' : World} {x : α} (h : w.Has x) (le : w ≤ w') :
    w'.Has x := Carries.mono le h

namespace Carries

variable {α β : Type}

/-- Other data holds no values. -/
instance (priority := low) : Carries α := ⟨fun _ _ => True, fun _ _ => trivial⟩

instance : Carries Value := ⟨fun w v => v ∈ w.objects, fun le h => le.1 h⟩

instance [Carries α] : Carries (List α) :=
  ⟨fun w xs => ∀ x ∈ xs, w.Has x, fun le h x hx => (h x hx).mono le⟩

instance [Carries α] : Carries (Option α) :=
  ⟨fun w o => ∀ x ∈ o, w.Has x, fun le h x hx => (h x hx).mono le⟩

instance [Carries α] [Carries β] : Carries (α × β) :=
  ⟨fun w p => w.Has p.1 ∧ w.Has p.2, fun le h => ⟨h.1.mono le, h.2.mono le⟩⟩

instance : Carries Key := ⟨fun w k => w.Has k.value, fun le h => h.mono le⟩

instance [Carries α] : Carries (Keyed α) :=
  ⟨fun w t => w.Has t.entries, fun le h => h.mono le⟩

instance : Carries Cursor := ⟨fun w c => w.Has c.parts, fun le h => h.mono le⟩

instance : Carries Exception := ⟨fun w e => w.Has e.toValue, fun le h => h.mono le⟩

/-- The value that a fault comes with: a key, or an exception. -/
def hasFault (w : World) : Fault → Prop
  | .missingKey key => w.Has key
  | .raised e => w.Has e
  | .cause _ | .gap _ | .unbounded => True

instance : Carries Fault where
  Has := hasFault
  mono {w w' f} le h := by
    cases f with
    | missingKey key => exact World.Has.mono (x := key) h le
    | raised e => exact World.Has.mono (x := e) h le
    | _ => trivial

instance {ε : Type} [Carries ε] [Carries α] : Carries (Except ε α) where
  Has w r := match r with
    | .ok x => w.Has x
    | .error e => w.Has e
  mono {w w' r} le h := by
    cases r with
    | ok x => exact World.Has.mono (x := x) h le
    | error e => exact World.Has.mono (x := e) h le

end Carries

namespace World

variable {α : Type} [Carries α] {w : World}

theorem has_none : w.Has (none : Option α) := fun _ hx => by cases hx

theorem has_some {x : α} (h : w.Has x) : w.Has (some x) := fun _ hx => by cases hx; exact h

theorem has_nil : w.Has ([] : List α) := fun _ hx => by cases hx

theorem has_cons {x : α} {xs : List α} (h : w.Has x) (hs : w.Has xs) : w.Has (x :: xs) :=
  List.forall_mem_cons.2 ⟨h, hs⟩

theorem has_append {xs ys : List α} (h : w.Has xs) (hs : w.Has ys) : w.Has (xs ++ ys) :=
  List.forall_mem_append.2 ⟨h, hs⟩

theorem has_two {x y : α} (h : w.Has [x, y]) : w.Has x ∧ w.Has y := by
  obtain ⟨hx, hs⟩ := List.forall_mem_cons.1 h
  exact ⟨hx, List.forall_mem_singleton.1 hs⟩

theorem has_three {x y z : α} (h : w.Has [x, y, z]) : w.Has x ∧ w.Has y ∧ w.Has z := by
  obtain ⟨hx, hs⟩ := List.forall_mem_cons.1 h
  exact ⟨hx, has_two hs⟩

/-- The iterators that a cursor steps are among its parts. -/
theorem has_inputs {c : Cursor} (has : w.Has c) : w.Has c.inputs := by
  cases c with
  | zip | enumerate => exact has
  | _ => nofun

theorem has_bytes (data : List UInt8) : w.Has data := fun _ _ => trivial

theorem has_chars (text : List Char) : w.Has text := fun _ _ => trivial

end World

/-- The fault comes with no value. -/
def Fault.isPlain : Fault → Bool
  | .missingKey _ | .raised _ => false
  | .cause _ | .gap _ | .unbounded => true

theorem World.has_of_isPlain {w : World} {f : Fault} (h : f.isPlain = true) : w.Has f := by
  cases f <;> trivial

/-- The heap stores objects of the world alone. Its cursors have come from where they were seen
and step older iterators alone. -/
structure World.Models (w : World) (h : Heap) : Prop where
  fresh : h.fresh = w.fresh
  extent : ∀ shelf, h.extent shelf = w.extent shelf
  list : ∀ r, w.Has (h.list r)
  dict : ∀ r, w.Has (h.dict r)
  set : ∀ r, w.Has (h.set r)
  cursor : ∀ r, w.Has (h.cursor r)
  moved : ∀ r, w.Admits r (h.cursor r)

end ObjectModel
