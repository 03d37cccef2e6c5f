import Mathlib.Data.List.Forall2
import ObjectModel.Proofs.Spelling.Text

/-!
# Writing with guards

`Heap.writeAt` writes the text of a value as it is done: a container puts its
number on a stack while it is being written, and one that is on the stack is cut
short. What an item view shows are tuples made anew, with guards of their own.
The only bound is the depth of the recursion, whose end is a fault.

`Writes` says that an action writes a text and leaves the stack as it was,
`Settles` that it does so once there are levels enough.
-/

namespace ObjectModel

open Spelling

/-- The containers that are being written, the innermost first, and the next
unused tag. -/
structure Guards where
  stack : List Nat
  fresh : Tag

/-- A step of writing, which may fail. -/
abbrev Writing := ExceptT Fault (StateM Guards)

namespace Writing

variable {α β : Type}

def runOn (action : Writing α) (g : Guards) : Except Fault α × Guards := action.run g

/-- Writes a container unless it is being written already. The guard comes off
even if that fails. -/
def guarded (v : Value) (write : Writing (List Char)) : Writing (List Char) := do
  if (← get).stack.contains v.identity.code then return v.placeholder
  modify fun g => { g with stack := v.identity.code :: g.stack }
  try write finally modify fun g => { g with stack := g.stack.tail }

def newTuple (items : List Value) : Writing Value :=
  modifyGet fun g => (.tuple g.fresh items, { g with fresh := g.fresh + 1 })

/-- Writes items one after the other. -/
def all (write : Value → Writing (List Char)) (opening : List Char) (items : List Value)
    (closing : List Char) : Writing (List Char) := do
  return enclose opening (← items.mapM write) closing

end Writing

namespace Heap

open Writing

/-- What a view of a dict shows. -/
def viewed (h : Heap) (r : Ref .dict) : Part → Writing (List Value)
  | .keys => return (h.dict r).keys.map (·.value)
  | .values => return (h.dict r).values
  | .items => (h.dict r).entries.mapM fun e => newTuple [e.1.value, e.2]

/-- Writes a value as a literal, descending so many levels at most. -/
def writeAt (h : Heap) : Nat → Value → Writing (List Char)
  | 0, _ => throw .unbounded
  | n + 1, .tuple _ [item] => do return ['('] ++ (← h.writeAt n item) ++ [',', ')']
  | n + 1, .tuple tag items =>
    guarded (.tuple tag items) (all (h.writeAt n) ['('] items [')'])
  | n + 1, .slice _ start stop step =>
    all (h.writeAt n) "slice(".toList [start, stop, step] [')']
  | n + 1, .error _ e args => all (h.writeAt n) (e.name.toList ++ ['(']) args [')']
  | n + 1, .list r => guarded (.list r) (all (h.writeAt n) ['['] (h.list r) [']'])
  | n + 1, .dict r => guarded (.dict r) do
    let entries ← (h.dict r).entries.mapM fun e => do
      return (← h.writeAt n e.1.value) ++ [':', ' '] ++ (← h.writeAt n e.2)
    return enclose ['\x7b'] entries ['\x7d']
  | n + 1, .set r =>
    if (h.set r).isEmpty then return "set()".toList
    else guarded (.set r) (all (h.writeAt n) ['\x7b'] ((h.set r).keys.map (·.value)) ['\x7d'])
  | n + 1, .view tag part r => do
    let items ← h.viewed r part
    let opening := (Value.view tag part r).kind.name.toList ++ ['(', '[']
    guarded (.view tag part r) (all (h.writeAt n) opening items [']', ')'])
  | _ + 1, v => return h.reprLeaf v

/-- Writes a value as a text, descending so many levels at most. -/
def writeTextAt (h : Heap) : Nat → Value → Writing (List Char)
  | 0, _ => throw .unbounded
  | _ + 1, .str _ t => return t.chars
  | _ + 1, .error _ _ [] => return []
  | n + 1, .error _ e [arg] => if e = .key then h.writeAt n arg else h.writeTextAt n arg
  | n + 1, .error _ _ args => do h.writeAt n (← newTuple args)
  | n + 1, v => h.writeAt n v

end Heap

-- ---------------------------------------------------------------------------
-- Texts that are written
-- ---------------------------------------------------------------------------

namespace Writing

variable {α β : Type}

theorem runOn_bind_of_ok {a : Writing α} {x : α} {g after : Guards}
    (run : a.runOn g = (.ok x, after)) (f : α → Writing β) :
    (a >>= f).runOn g = (f x).runOn after := by
  simp only [bind, ExceptT.bind, runOn, ExceptT.run, ExceptT.mk, StateT.bind] at run ⊢
  rw [run]
  rfl

theorem runOn_get (g : Guards) : (get : Writing Guards).runOn g = (.ok g, g) := rfl

theorem runOn_finally (a : Writing α) (f : Guards → Guards) (g : Guards) :
    (try a finally modify f).runOn g = ((a.runOn g).1, f (a.runOn g).2) := by
  simp only [runOn, tryFinally, tryFinally', bind, ExceptT.run, ExceptT.mk, StateT.bind,
    Functor.map, ExceptT.map]
  obtain ⟨_ | _, _⟩ := a g <;> rfl

theorem runOn_guarded_of_mem {v : Value} {write : Writing (List Char)} {g : Guards}
    (met : v.identity.code ∈ g.stack) : (guarded v write).runOn g = (.ok v.placeholder, g) := by
  have contains : g.stack.contains v.identity.code = true := List.contains_iff_mem.2 met
  rw [guarded, runOn_bind_of_ok (runOn_get g), if_pos contains]
  rfl

theorem runOn_guarded {v : Value} {write : Writing (List Char)} {g : Guards}
    (new : v.identity.code ∉ g.stack) : (guarded v write).runOn g =
      let r := write.runOn { g with stack := v.identity.code :: g.stack }
      (r.1, { r.2 with stack := r.2.stack.tail }) := by
  have contains : ¬ g.stack.contains v.identity.code = true := by simpa using new
  rw [guarded, runOn_bind_of_ok (runOn_get g), if_neg contains]
  exact runOn_finally write _ _

theorem runOn_newTuple (items : List Value) (g : Guards) : (newTuple items).runOn g =
    (.ok (.tuple g.fresh items), { g with fresh := g.fresh + 1 }) := rfl

end Writing

/-- From this tag on, whichever is next, the action ends with the result and the
stack as it was. -/
def Writes {α : Type} (stack : List Nat) (first : Tag) (action : Writing α) (x : α) : Prop :=
  ∀ fresh, first ≤ fresh → ∃ next, fresh ≤ next ∧
    action.runOn ⟨stack, fresh⟩ = (.ok x, ⟨stack, next⟩)

namespace Writes

open Writing

variable {α β : Type} {stack : List Nat} {first : Tag}

protected theorem pure (x : α) : Writes stack first (pure x) x :=
  fun fresh _ => ⟨fresh, Nat.le_refl _, rfl⟩

protected theorem bind {a : Writing α} {f : α → Writing β} {x : α} {y : β}
    (ha : Writes stack first a x) (hf : Writes stack first (f x) y) :
    Writes stack first (a >>= f) y := by
  intro fresh hfirst
  obtain ⟨next, hn, run⟩ := ha fresh hfirst
  obtain ⟨last, hl, rest⟩ := hf next (hfirst.trans hn)
  exact ⟨last, hn.trans hl, (runOn_bind_of_ok run f).trans rest⟩

protected theorem mapM {f : α → Writing β} {xs : List α} {ys : List β}
    (h : List.Forall₂ (fun x y => Writes stack first (f x) y) xs ys) :
    Writes stack first (xs.mapM f) ys := by
  induction h with
  | nil => exact .pure []
  | cons hx _ ih =>
    rw [List.mapM_cons]
    exact .bind hx (.bind ih (.pure _))

protected theorem all {write : Value → Writing (List Char)} {items : List Value}
    {texts : List (List Char)} (h : Writes stack first (items.mapM write) texts)
    (opening closing : List Char) :
    Writes stack first (Writing.all write opening items closing) (enclose opening texts closing) :=
  .bind h (.pure _)

theorem guarded_of_mem {v : Value} (met : v.identity.code ∈ stack)
    (write : Writing (List Char)) : Writes stack first (guarded v write) v.placeholder :=
  fun fresh _ => ⟨fresh, Nat.le_refl _, runOn_guarded_of_mem met⟩

/-- What is put on the stack comes off it. -/
protected theorem guarded {v : Value} (new : v.identity.code ∉ stack) {write : Writing (List Char)}
    {text : List Char} (h : Writes (v.identity.code :: stack) first write text) :
    Writes stack first (guarded v write) text := by
  intro fresh hf
  obtain ⟨next, hn, run⟩ := h fresh hf
  refine ⟨next, hn, ?_⟩
  rw [runOn_guarded new, run]
  rfl

end Writes

-- ---------------------------------------------------------------------------
-- Guards and worlds
-- ---------------------------------------------------------------------------

/-- Of the containers of the world just these are on the stack, and nothing that is
made from this tag on. -/
structure World.Guarded (w : World) (opened : Opened) (stack : List Nat) (first : Tag) : Prop where
  mem_iff : ∀ {v : Value}, w.Has v → v.identity.isContainer = true →
    (v.identity.code ∈ stack ↔ opened.contains v.identity.code = true)
  fresh_le : w.fresh ≤ first
  unused : ∀ tag, first ≤ tag → (Identity.tagged tag).code ∉ stack

namespace World.Guarded

variable {w : World} {opened : Opened} {stack : List Nat} {first : Tag}

theorem mono {later : Tag} (g : w.Guarded opened stack first) (le : first ≤ later) :
    w.Guarded opened stack later :=
  ⟨g.mem_iff, g.fresh_le.trans le, fun tag h => g.unused tag (le.trans h)⟩

/-- A container of the world has not the number of one that is still to be made. -/
theorem code_ne {v : Value} (has : w.Has v) (container : v.identity.isContainer = true) {tag : Tag}
    (new : w.fresh ≤ tag) : v.identity.code ≠ (Identity.tagged tag).code := by
  intro same
  have tagged : v.identity = .tagged tag := Identity.code_inj container rfl same
  exact absurd (w.tag_lt has tagged) (Nat.not_lt.2 new)

theorem push (g : w.Guarded opened stack first) {v : Value} (has : w.Has v)
    (container : v.identity.isContainer = true) :
    w.Guarded (opened.insert v.identity.code) (v.identity.code :: stack) first where
  mem_iff {u} hu hc := by
    rw [List.mem_cons, g.mem_iff hu hc, Std.TreeSet.contains_insert, Bool.or_eq_true,
      beq_iff_eq, Std.LawfulEqCmp.compare_eq_iff_eq, @eq_comm Nat u.identity.code]
  fresh_le := g.fresh_le
  unused tag h hm := by
    rcases List.mem_cons.1 hm with same | hm
    · exact code_ne has container (g.fresh_le.trans h) same.symm
    · exact g.unused tag h hm

/-- A tuple that is not of the world does not count. -/
theorem push_temporary (g : w.Guarded opened stack first) {tag : Tag} (new : w.fresh ≤ tag)
    (lt : tag < first) : w.Guarded opened ((Identity.tagged tag).code :: stack) first where
  mem_iff {u} hu hc := by
    rw [List.mem_cons, g.mem_iff hu hc]
    exact or_iff_right (code_ne hu hc new)
  fresh_le := g.fresh_le
  unused other h hm := by
    rcases List.mem_cons.1 hm with same | hm
    · cases Identity.code_inj rfl rfl same
      exact absurd lt (Nat.not_lt.2 h)
    · exact g.unused other h hm

end World.Guarded

end ObjectModel
