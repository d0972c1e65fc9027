/-
Wait lists: the first-in first-out lists that hold blocked tasks and queued values.

A `WaitList` is an arena together with the knowledge that it is sound, so its users
need to know one thing only, the list `toList` of its entries.  Each operation has
one equation that says what it does to that view; nothing outside this folder looks
at cells.

The number of cells kept for reuse, `pooled`, is the one thing that the view does
not determine.
-/
import BlockingSync.WaitList.Sound
import BlockingSync.Config

namespace BlockingSync

/-- A first-in first-out list whose cells are reused. -/
structure WaitList (α : Type) where
  arena : Arena α
  sound : arena.Sound

namespace WaitList

variable {α : Type}

/-- An empty list; of the configuration only the pooling of nodes matters to it. -/
def empty (config : Config) : WaitList α :=
  ⟨.empty config.nodePooling, .empty config.nodePooling⟩

instance : Inhabited (WaitList α) :=
  ⟨empty {}⟩

/-- The entries, earliest first. -/
def toList (l : WaitList α) : List α :=
  l.arena.toList

/-- How many entries there are. -/
def length (l : WaitList α) : Nat :=
  l.arena.size

def isEmpty (l : WaitList α) : Bool :=
  l.length == 0

/-- How many cells are kept for reuse. -/
def pooled (l : WaitList α) : Nat :=
  l.arena.nodes.size - l.arena.size

/-- What an iterator yields behind the first `count` entries, and what it yields once it is
exhausted. -/
def iterate (l : WaitList α) (count : Nat) : List α × Option α :=
  let (vs, cursor) := l.arena.collect (l.arena.nodes.size + 1) (l.arena.skip count l.arena.head)
  (vs, (l.arena.next cursor).1)

/-- The entries as an iterator yields them. -/
def toVec (l : WaitList α) : List α :=
  (l.iterate 0).1

/-- Appends an entry. -/
def push (l : WaitList α) (v : α) : WaitList α :=
  ⟨l.arena.push v, l.sound.push v⟩

/-- The earliest entry and the list without it. -/
def shift? (l : WaitList α) : Option (α × WaitList α) :=
  match h : l.arena.shift with
  | (none, _) => none
  | (some v, rest) => some (v, ⟨rest, by simpa [h] using l.sound.shift⟩)

/-- Drops every entry. -/
def clear (l : WaitList α) : WaitList α :=
  ⟨l.arena.clear, l.sound.clear⟩

/-- Appends several entries in order. -/
def append (l : WaitList α) (vs : List α) : WaitList α :=
  vs.foldl push l

/-- Takes entries out one by one, at most `limit` of them; the others stay. -/
def drain : Nat → WaitList α → List α × WaitList α
  | 0, l => ([], l)
  | limit + 1, l =>
    match l.shift? with
    | none => ([], l)
    | some (v, rest) =>
      let (vs, rest) := drain limit rest
      (v :: vs, rest)

/-- Takes every entry out, one by one. -/
def drainAll (l : WaitList α) : List α × WaitList α :=
  l.drain l.length

/-! ### The operations through the view -/

@[simp] theorem toList_empty (config : Config) : (empty config : WaitList α).toList = [] := rfl

@[simp] theorem length_toList (l : WaitList α) : l.toList.length = l.length := by
  obtain ⟨_, _, h⟩ := l.sound
  exact h.length_toList

theorem isEmpty_iff (l : WaitList α) : l.isEmpty = true ↔ l.toList = [] := by
  rw [← List.length_eq_zero_iff, length_toList, isEmpty, beq_iff_eq]

@[simp] theorem toList_push (l : WaitList α) (v : α) : (l.push v).toList = l.toList ++ [v] := by
  obtain ⟨_, _, h⟩ := l.sound
  have := (h.push v).1.toList_eq
  rw [(h.push v).2] at this
  exact this

@[simp] theorem toList_append (l : WaitList α) (vs : List α) :
    (l.append vs).toList = l.toList ++ vs := by
  unfold append
  induction vs generalizing l with
  | nil => simp
  | cons v vs ih => rw [List.foldl_cons, ih]; simp

@[simp] theorem toList_clear (l : WaitList α) : l.clear.toList = [] := by
  obtain ⟨_, _, h⟩ := l.sound
  obtain ⟨_, h'⟩ := h.clear
  exact h'.toList_eq

theorem shift?_eq (l : WaitList α) :
    l.shift? = l.arena.shift.1.map fun v => (v, ⟨l.arena.shift.2, l.sound.shift⟩) := by
  unfold shift?
  split <;> simp [*]

theorem shift?_eq_none {l : WaitList α} (h : l.toList = []) : l.shift? = none := by
  obtain ⟨live, _, hc⟩ := l.sound
  cases live with
  | nil => simp [shift?_eq, hc.shift_nil]
  | cons i live =>
      obtain ⟨v, _, -, -, hlist⟩ := hc.shift_cons
      rw [toList, hlist] at h
      simp at h

/-- Shifting splits the view into its first entry and the rest. -/
theorem shift?_eq_some {l : WaitList α} {v : α} {vs : List α} (h : l.toList = v :: vs) :
    ∃ rest, l.shift? = some (v, rest) ∧ rest.toList = vs := by
  obtain ⟨live, _, hc⟩ := l.sound
  cases live with
  | nil =>
      rw [toList, hc.toList_eq] at h
      simp at h
  | cons i live =>
      obtain ⟨w, _, hw, -, hlist⟩ := hc.shift_cons
      rw [toList, hlist] at h
      simp only [List.cons.injEq] at h
      exact ⟨⟨l.arena.shift.2, l.sound.shift⟩, by simp [shift?_eq, hw, h.1], h.2⟩

/-- The view of a shift, both ways at once. -/
theorem toList_of_shift? {l rest : WaitList α} {v : α} (h : l.shift? = some (v, rest)) :
    l.toList = v :: rest.toList := by
  cases hl : l.toList with
  | nil => simp [shift?_eq_none hl] at h
  | cons w ws =>
      obtain ⟨r, hr, rfl⟩ := shift?_eq_some hl
      rw [hr] at h
      simp only [Option.some.injEq, Prod.mk.injEq] at h
      rw [h.1, h.2]

theorem length_of_shift? {l rest : WaitList α} {v : α} (h : l.shift? = some (v, rest)) :
    l.length = rest.length + 1 := by
  rw [← length_toList, toList_of_shift? h, List.length_cons, length_toList]

theorem shift?_eq_none_iff (l : WaitList α) : l.shift? = none ↔ l.toList = [] := by
  refine ⟨fun h => ?_, shift?_eq_none⟩
  cases hl : l.toList with
  | nil => rfl
  | cons v vs =>
      obtain ⟨_, hr, -⟩ := shift?_eq_some hl
      simp [hr] at h

/-- Draining takes the first entries and leaves the others. -/
theorem drain_eq (limit : Nat) (l : WaitList α) :
    (l.drain limit).1 = l.toList.take limit ∧ (l.drain limit).2.toList = l.toList.drop limit := by
  induction limit generalizing l with
  | zero => simp [drain]
  | succ limit ih =>
      cases hl : l.toList with
      | nil => simp [drain, shift?_eq_none hl, hl]
      | cons v vs =>
          obtain ⟨rest, hr, rfl⟩ := shift?_eq_some hl
          simp [drain, hr, ih rest]

@[simp] theorem drain_fst (limit : Nat) (l : WaitList α) :
    (l.drain limit).1 = l.toList.take limit :=
  (drain_eq limit l).1

@[simp] theorem toList_drain (limit : Nat) (l : WaitList α) :
    (l.drain limit).2.toList = l.toList.drop limit :=
  (drain_eq limit l).2

@[simp] theorem drainAll_fst (l : WaitList α) : l.drainAll.1 = l.toList := by
  simp [drainAll, ← length_toList]

@[simp] theorem toList_drainAll (l : WaitList α) : l.drainAll.2.toList = [] := by
  simp [drainAll, ← length_toList]

end WaitList

end BlockingSync
