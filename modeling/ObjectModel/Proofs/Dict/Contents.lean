import ObjectModel.Proofs.Dict.Assoc
import ObjectModel.Proofs.Quiet
import ObjectModel.Proofs.World.Method

/-!
# The contents of the dicts of a heap

The dicts of a heap are association lists, by number. An update from an iterable
reads it pair by pair and writes each pair before it asks for the next one, so
that an iterable which reads the same dict sees what has been written.

Main statements: `Heap.assocs_putDict` and `Heap.assocs_push` say what writing
and making a dict do, and `Reads.runs` that an update writes the pairs it reads.
-/

namespace ObjectModel

open ObjectModel.Action World

/-- The contents of dicts, by number. -/
abbrev Dicts := List Assoc

namespace Dicts

def read (ds : Dicts) (r : Ref .dict) : Assoc := ds[r.index]?.getD []

def change (ds : Dicts) (r : Ref .dict) (f : Assoc → Assoc) : Dicts := ds.modify r.index f

/-- Continues a dict with the parts of a display. -/
def display (ds : Dicts) : Assoc → List DictMethod.DisplayItem → Except Fault Assoc
  | t, [] => .ok t
  | t, .pair k v :: items => display ds (t.write k v) items
  | t, .unpack (.dict r) :: items => display ds (t.writeAll (ds.read r)) items
  | _, .unpack v :: _ => .error (.unimplemented "** unpacking" v.kind)

def MethodFree (ds : Dicts) : Prop := ∀ t ∈ ds, t.MethodFree

variable {ds : Dicts} {r : Ref .dict} {f g : Assoc → Assoc}

theorem read_mem (hr : r.index < ds.length) : ds.read r ∈ ds := by
  rw [read, List.getElem?_eq_getElem hr]
  exact List.getElem_mem hr

theorem exists_read {t : Assoc} (ht : t ∈ ds) : ∃ r, ds.read r = t := by
  obtain ⟨i, hi, rfl⟩ := List.getElem_of_mem ht
  exact ⟨⟨i⟩, by rw [read, List.getElem?_eq_getElem hi, Option.getD_some]⟩

theorem MethodFree.read (free : ds.MethodFree) (r : Ref .dict) : (ds.read r).MethodFree := by
  by_cases hr : r.index < ds.length
  · exact free _ (read_mem hr)
  · rw [Dicts.read, List.getElem?_eq_none (Nat.le_of_not_lt hr)]
    exact fun _ he => by cases he

theorem change_congr (h : f (ds.read r) = g (ds.read r)) : ds.change r f = ds.change r g := by
  refine List.ext_getElem? fun i => ?_
  rw [change, change, List.getElem?_modify, List.getElem?_modify]
  split
  · next hi =>
    subst hi
    cases hd : ds[r.index]? with
    | none => rfl
    | some t =>
      have : ds.read r = t := by simp [read, hd]
      simp [← this, h]
  · rfl

theorem change_change : (ds.change r f).change r g = ds.change r fun t => g (f t) := by
  refine List.ext_getElem? fun i => ?_
  simp only [change, List.getElem?_modify]
  split <;> simp [Function.comp_def]

theorem change_id : ds.change r id = ds := by
  refine List.ext_getElem? fun i => ?_
  rw [change, List.getElem?_modify]
  split <;> simp

theorem change_eq_self (h : f (ds.read r) = ds.read r) : ds.change r f = ds :=
  (change_congr h).trans change_id

theorem read_change_of_ne {s : Ref .dict} (hs : s ≠ r) : (ds.change r f).read s = ds.read s := by
  have hi : r.index ≠ s.index := fun hi => hs (by cases r; cases s; cases hi; rfl)
  simp [read, change, hi]

theorem MethodFree.change (free : ds.MethodFree) (hf : ∀ t, t.MethodFree → (f t).MethodFree) :
    (ds.change r f).MethodFree := by
  intro t ht
  obtain ⟨i, hi, rfl⟩ := List.getElem_of_mem ht
  have hi' : i < ds.length := by simpa [Dicts.change] using hi
  have old := free _ (List.getElem_mem hi')
  simp only [Dicts.change, List.getElem_modify]
  split
  · exact hf _ old
  · exact old

end Dicts

namespace Heap

/-- The contents of all dicts. -/
def assocs (h : Heap) : Dicts := h.dicts.cells.toList.map (·.assoc)

variable {h : Heap} {r : Ref .dict} {t : Table}

@[simp] theorem length_assocs (h : Heap) : h.assocs.length = h.dicts.size := by
  simp [assocs, Store.size]

theorem read_assocs (h : Heap) (r : Ref .dict) : h.assocs.read r = (h.dict r).assoc := by
  simp only [Dicts.read, assocs, dict, Store.get, List.getElem?_map,
    Array.getElem?_toList]
  cases h.dicts.cells[r.index]? <;> rfl

theorem assocs_of_dicts {h' : Heap} (hd : h'.dicts = h.dicts) : h'.assocs = h.assocs := by
  rw [assocs, assocs, hd]

/-- Writing a dict changes it and no other. -/
theorem assocs_putDict (hr : r.index < h.dicts.size) {f : Assoc → Assoc}
    (ht : t.assoc = f (h.dict r).assoc) : (h.putDict r t).assocs = h.assocs.change r f := by
  have written : (h.putDict r t).assocs = h.assocs.change r fun _ => t.assoc := by
    have hr' : r.index < h.dicts.cells.size := hr
    simp [assocs, putDict, Store.set, hr', Dicts.change, List.modify_eq_set]
  rw [written]
  exact Dicts.change_congr (by rw [ht, read_assocs])

theorem assocs_modifyDict (hr : r.index < h.dicts.size) {f : Table → Table} {g : Assoc → Assoc}
    (hf : (f (h.dict r)).assoc = g (h.dict r).assoc) :
    (h.modifyDict r f).assocs = h.assocs.change r g := by
  rw [modifyDict_eq]
  exact assocs_putDict hr hf

theorem assocs_push (h : Heap) (t : Table) :
    Heap.assocs { h with dicts := h.dicts.push t } = h.assocs ++ [t.assoc] := by
  simp [assocs, Store.push]

end Heap

end ObjectModel
