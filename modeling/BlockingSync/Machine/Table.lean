/-
Tables: a value for every number, all but finitely many of them the default.

Since no number is out of bounds, reading after writing has one law without side
conditions.
-/

namespace BlockingSync

/-- The values at the numbers below the length of the list; the others are the default. -/
structure Table (α : Type) where
  cells : List α := []

namespace Table

variable {α : Type} [Inhabited α]

/-- The value at a number. -/
def get (t : Table α) (i : Nat) : α :=
  t.cells.getD i default

/-- Writes one cell of a list, making it longer if need be. -/
def setCell (v : α) : Nat → List α → List α
  | 0, [] => [v]
  | 0, _ :: cells => v :: cells
  | i + 1, [] => default :: setCell v i []
  | i + 1, w :: cells => w :: setCell v i cells

/-- The table with another value at one number. -/
def set (t : Table α) (i : Nat) (v : α) : Table α :=
  ⟨setCell v i t.cells⟩

/-- The table with the value at one number replaced by a function of it. -/
def modify (t : Table α) (i : Nat) (f : α → α) : Table α :=
  t.set i (f (t.get i))

/-- The table with a value at the first number that was never written. -/
def add (t : Table α) (v : α) : Table α :=
  ⟨t.cells ++ [v]⟩

/-- The first number that was never written. -/
def size (t : Table α) : Nat :=
  t.cells.length

theorem getD_setCell (v : α) (i j : Nat) (cells : List α) :
    (setCell v i cells).getD j default = if i = j then v else cells.getD j default := by
  induction i generalizing j cells with
  | zero => cases cells <;> cases j <;> simp [setCell]
  | succ i ih =>
      cases cells with
      | nil =>
          cases j with
          | zero => simp [setCell]
          | succ j =>
              have := ih j []
              simpa [setCell] using this
      | cons w cells =>
          cases j with
          | zero => simp [setCell]
          | succ j =>
              have := ih j cells
              simpa [setCell] using this

theorem get_set (t : Table α) (i j : Nat) (v : α) :
    (t.set i v).get j = if i = j then v else t.get j :=
  getD_setCell v i j t.cells

@[simp] theorem get_set_self (t : Table α) (i : Nat) (v : α) : (t.set i v).get i = v := by
  simp [get_set]

theorem setCell_setCell (v w : α) (i : Nat) (cells : List α) :
    setCell w i (setCell v i cells) = setCell w i cells := by
  induction i generalizing cells with
  | zero => cases cells <;> rfl
  | succ i ih => cases cells <;> simp [setCell, ih]

@[simp] theorem set_set (t : Table α) (i : Nat) (v w : α) : (t.set i v).set i w = t.set i w := by
  simp [set, setCell_setCell]

theorem length_setCell (v : α) (i : Nat) (cells : List α) (h : i < cells.length) :
    (setCell v i cells).length = cells.length := by
  induction i generalizing cells with
  | zero => cases cells <;> simp_all [setCell]
  | succ i ih =>
      cases cells with
      | nil => simp at h
      | cons w cells => simpa [setCell] using ih cells (by simpa using h)

theorem size_set {t : Table α} {i : Nat} (v : α) (h : i < t.size) : (t.set i v).size = t.size :=
  length_setCell v i t.cells h

theorem map_setCell {β : Type} [Inhabited β] {f : α → β} (hf : f default = default) (v : α)
    (i : Nat) (cells : List α) : (setCell v i cells).map f = setCell (f v) i (cells.map f) := by
  induction i generalizing cells with
  | zero => cases cells <;> rfl
  | succ i ih => cases cells <;> simp [setCell, ih, hf]

theorem get_add (t : Table α) (v : α) (i : Nat) :
    (t.add v).get i = if i = t.size then v else t.get i := by
  simp only [get, add, size, List.getD_eq_getElem?_getD, List.getElem?_append]
  split
  · rw [if_neg (by omega)]
  · rename_i hi
    split
    · subst i; simp
    · rw [List.getElem?_eq_none (by simp; omega), List.getElem?_eq_none (by omega)]

omit [Inhabited α] in
@[simp] theorem size_add (t : Table α) (v : α) : (t.add v).size = t.size + 1 := by
  simp [add, size]

theorem get_add_of_lt (t : Table α) (v : α) {i : Nat} (h : i < t.size) :
    (t.add v).get i = t.get i := by
  rw [get_add, if_neg (by omega)]

@[simp] theorem get_add_self (t : Table α) (v : α) : (t.add v).get t.size = v := by
  simp [get_add]

end Table

end BlockingSync
