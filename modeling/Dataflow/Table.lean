/-!
# Tables by number

A finite partial map from numbers, kept in an array that grows as needed. Main fact: `get?_insert`.
-/

namespace Dataflow

structure Table (α : Type) where
  cells : Array (Option α)
  deriving DecidableEq

namespace Table

variable {α : Type}

def empty : Table α :=
  ⟨#[]⟩

def get? (t : Table α) (i : Nat) : Option α :=
  (t.cells[i]?).getD none

def insert (t : Table α) (i : Nat) (a : α) : Table α :=
  if i < t.cells.size then ⟨t.cells.setIfInBounds i (some a)⟩
  else ⟨(t.cells ++ Array.replicate (i - t.cells.size) none).push (some a)⟩

@[simp] theorem get?_empty (i : Nat) : (empty : Table α).get? i = none := rfl

theorem get?_insert (t : Table α) (i j : Nat) (a : α) :
    (t.insert i a).get? j = if j = i then some a else t.get? j := by
  unfold insert get?
  split
  · grind
  · simp only [Array.getElem?_push, Array.getElem?_append, Array.size_append, Array.size_replicate,
      Array.getElem?_replicate]
    grind

@[simp] theorem get?_insert_self (t : Table α) (i : Nat) (a : α) :
    (t.insert i a).get? i = some a := by
  simp [get?_insert]

theorem get?_insert_ne (t : Table α) {i j : Nat} (a : α) (h : j ≠ i) :
    (t.insert i a).get? j = t.get? j := by
  simp [get?_insert, h]

end Table

end Dataflow
