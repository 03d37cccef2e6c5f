/-!
# Stores

Numbered cells. Writing beyond the last cell makes the cells in between, so the
laws of reading after writing need no bounds.
-/

namespace ObjectModel

structure Store (α : Type) where
  cells : Array α

namespace Store

variable {α : Type}

def empty : Store α := ⟨#[]⟩

instance : Inhabited (Store α) := ⟨empty⟩

def size (s : Store α) : Nat := s.cells.size

def get [Inhabited α] (s : Store α) (i : Nat) : α := s.cells[i]?.getD default

def set [Inhabited α] (s : Store α) (i : Nat) (x : α) : Store α :=
  if h : i < s.cells.size then ⟨s.cells.set i x h⟩
  else ⟨(s.cells ++ Array.replicate (i - s.cells.size) default).push x⟩

/-- Changes a cell where it is. -/
def modify [Inhabited α] (s : Store α) (i : Nat) (f : α → α) : Store α :=
  if i < s.cells.size then ⟨s.cells.modify i f⟩ else s.set i (f default)

/-- Adds a cell; its number is the old size. -/
def push (s : Store α) (x : α) : Store α := ⟨s.cells.push x⟩

@[simp] theorem size_push (s : Store α) (x : α) : (s.push x).size = s.size + 1 := by
  simp [push, size]

variable [Inhabited α]

@[simp] theorem get_set_self (s : Store α) (i : Nat) (x : α) : (s.set i x).get i = x := by
  unfold set get
  split
  · simp
  · next h =>
    simp only [Array.getElem?_push, Array.size_append, Array.size_replicate]
    rw [if_pos (by omega)]
    rfl

theorem get_set_ne (s : Store α) {i j : Nat} (x : α) (h : j ≠ i) : (s.set i x).get j = s.get j := by
  unfold set get
  split
  · simp [Ne.symm h]
  · next hi =>
    simp only [Array.getElem?_push, Array.size_append, Array.size_replicate, Array.getElem?_append,
      Array.getElem?_replicate]
    split
    · omega
    · split
      · rfl
      · next hj =>
        rw [Array.getElem?_eq_none (by omega)]
        split <;> rfl

theorem get_set (s : Store α) (i : Nat) (x : α) (j : Nat) :
    (s.set i x).get j = if j = i then x else s.get j := by
  split
  · next h => rw [h, get_set_self]
  · next h => exact get_set_ne s x h

@[simp] theorem modify_eq (s : Store α) (i : Nat) (f : α → α) :
    s.modify i f = s.set i (f (s.get i)) := by
  unfold modify set get
  split
  · next h =>
    rw [mk.injEq]
    refine Array.ext_getElem? fun j => ?_
    rw [Array.getElem?_modify, Array.getElem?_set]
    split
    · next hj => simp [← hj, h]
    · rfl
  · next h => rw [Array.getElem?_eq_none (by omega)]; rfl

@[simp] theorem get_push_size (s : Store α) (x : α) : (s.push x).get s.size = x := by
  simp [push, get, size]

theorem get_of_size_le (s : Store α) {i : Nat} (h : s.size ≤ i) : s.get i = default := by
  simp only [get, size] at *
  rw [Array.getElem?_eq_none h]
  rfl

theorem get_push_of_lt (s : Store α) {i : Nat} (x : α) (h : i < s.size) :
    (s.push x).get i = s.get i := by
  simp only [push, get, size] at *
  rw [Array.getElem?_push]
  split
  · omega
  · rfl

theorem get_push (s : Store α) (x : α) (i : Nat) :
    (s.push x).get i = if i = s.size then x else s.get i := by
  split
  · next h => rw [h, get_push_size]
  · next h =>
    rcases Nat.lt_or_gt_of_ne h with h | h
    · exact get_push_of_lt s x h
    · rw [get_of_size_le _ (by simpa using Nat.succ_le_of_lt h), get_of_size_le _ (Nat.le_of_lt h)]

theorem size_set_of_lt (s : Store α) {i : Nat} (x : α) (h : i < s.size) :
    (s.set i x).size = s.size := by
  simp only [set, size] at *
  simp [h]

end Store

end ObjectModel
