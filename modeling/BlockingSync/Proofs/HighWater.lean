/-
A wait list has as many cells as it has had entries at once.

A push takes a cell that is free if there is one, so the cells grow in number only when the
list gets longer than it has ever been; taking entries out and clearing frees cells and
forgets none, unless the list comes to be empty and keeps no free cells.  All operations are
alike in this (`Settles`): afterwards the cells are those from before, or as many as there
are entries, whichever is more, or there are none left.

One step of a script may be several operations, but they make the list only longer or only
shorter.  So it is enough to know how long the list was after each step (`lengths`); the
greatest of the lengths that count is its high-water mark (`mark`).
-/
import BlockingSync.Proofs.Storage

namespace BlockingSync

namespace Arena

variable {α : Type} {a : Arena α} {live free : List Nat}

/-! ### How many cells each operation leaves -/

/-- A push adds a cell only when none is free. -/
theorem Chains.size_push (h : Chains a live free) (v : α) :
    (a.push v).nodes.size = max a.nodes.size (a.size + 1) := by
  have hbefore := h.covers
  have hafter := (h.push v).1.covers
  have hsize := h.size_eq
  rw [List.length_append, List.length_singleton, List.length_tail] at hafter
  omega

/-- It adds one only when all cells hold entries. -/
theorem Chains.mem_live_of_grows (h : Chains a live free) {v : α}
    (hgrows : a.nodes.size < (a.push v).nodes.size) {i : Nat} (hi : i < a.nodes.size) :
    i ∈ live := by
  have hcovers := h.covers
  have hsize := h.size_eq
  rw [h.size_push] at hgrows
  have hfree : free = [] := List.length_eq_zero_iff.1 (by omega)
  simpa [hfree] using h.mem_of_lt hi

theorem pooling_push (a : Arena α) (v : α) : (a.push v).pooling = a.pooling := by
  obtain ⟨-, -, -, hpooling⟩ := allocate_fields a v
  simp only [push]
  split <;> exact hpooling

theorem pooling_releaseIfDrained (a : Arena α) : a.releaseIfDrained.pooling = a.pooling := by
  unfold releaseIfDrained
  split <;> rfl

theorem nodes_releaseIfDrained (a : Arena α) :
    a.releaseIfDrained.nodes.size =
      if a.pooling || a.releaseIfDrained.size != 0 then a.nodes.size else 0 := by
  unfold releaseIfDrained
  split <;> rfl

theorem pooling_shift (a : Arena α) : a.shift.2.pooling = a.pooling := by
  unfold shift
  split
  · rfl
  · exact pooling_releaseIfDrained _

theorem nodes_shift {i : Nat} (hhead : a.head = some i) :
    a.shift.2.nodes.size = if a.pooling || a.shift.2.size != 0 then a.nodes.size else 0 := by
  simp only [shift, hhead, nodes_releaseIfDrained, Array.size_modify]

theorem pooling_clear (a : Arena α) : a.clear.pooling = a.pooling := by
  unfold clear
  split
  · rfl
  · exact pooling_releaseIfDrained _

theorem nodes_clear {t : Nat} (htail : a.tail = some t) :
    a.clear.nodes.size = if a.pooling || a.clear.size != 0 then a.nodes.size else 0 := by
  simp only [clear, htail, nodes_releaseIfDrained, size_relink, size_vacate]

end Arena

namespace WaitList

variable {α : Type} {l l' l'' rest : WaitList α} {v : α}

/-- How many cells there are, live or free. -/
def cells (l : WaitList α) : Nat :=
  l.arena.nodes.size

/-- Whether free cells are kept for now. -/
def keeps (l : WaitList α) : Bool :=
  l.arena.pooling || l.length != 0

theorem length_le_cells (l : WaitList α) : l.length ≤ l.cells :=
  l.sound.intact.size_le

theorem pooled_add_length (l : WaitList α) : l.pooled + l.length = l.cells :=
  Nat.sub_add_cancel l.length_le_cells

/-! ### What an operation does to the cells -/

/-- What an operation does to the cells of a list. -/
structure Settles (l l' : WaitList α) : Prop where
  pooling : l'.arena.pooling = l.arena.pooling
  cells : l'.cells = if l'.keeps then max l.cells l'.length else 0

namespace Settles

/-- It has been done to the list that it leaves. -/
theorem settled (h : l.Settles l') : l'.Settles l' where
  pooling := rfl
  cells := by
    have hlength := l'.length_le_cells
    have hcells := h.cells
    split at hcells
    · rw [Nat.max_eq_left hlength, if_pos ‹_›]
    · rw [hcells, if_neg ‹_›]

/-- Two operations in a row come to one, if the list does not come to be empty or longer
in between. -/
theorem trans (h : l.Settles l') (h' : l'.Settles l'') (hkeeps : l''.keeps = true → l'.keeps = true)
    (hlength : l'.length ≤ max l.cells l''.length) : l.Settles l'' where
  pooling := h'.pooling.trans h.pooling
  cells := by
    rw [h'.cells]
    split
    · rename_i hkeeps''
      rw [h.cells, if_pos (hkeeps hkeeps'')]
      omega
    · rfl

end Settles

theorem settles_empty (config : Config) :
    (empty config : WaitList α).Settles (empty config) where
  pooling := rfl
  cells := (ite_self 0).symm

theorem length_push (l : WaitList α) (v : α) : (l.push v).length = l.length + 1 := by
  rw [← length_toList, toList_push, List.length_append, length_toList, List.length_singleton]

theorem cells_push (l : WaitList α) (v : α) : (l.push v).cells = max l.cells (l.length + 1) := by
  obtain ⟨_, _, h⟩ := l.sound
  exact h.size_push v

theorem keeps_push (l : WaitList α) (v : α) : (l.push v).keeps = true := by
  simp [keeps, length_push]

theorem settles_push (l : WaitList α) (v : α) : l.Settles (l.push v) where
  pooling := l.arena.pooling_push v
  cells := by rw [if_pos (l.keeps_push v), length_push, cells_push]

theorem arena_of_shift? (h : l.shift? = some (v, rest)) : rest.arena = l.arena.shift.2 := by
  rw [shift?_eq] at h
  obtain ⟨_, -, hentry⟩ := Option.map_eq_some_iff.1 h
  cases hentry
  rfl

theorem head_of_shift? (h : l.shift? = some (v, rest)) : ∃ i, l.arena.head = some i := by
  cases hhead : l.arena.head with
  | none => simp [shift?_eq, Arena.shift, hhead] at h
  | some i => exact ⟨i, rfl⟩

/-- What is left after a shift is shorter than the list was, so the cells are enough for it. -/
theorem settles_shift (h : l.shift? = some (v, rest)) : l.Settles rest := by
  obtain ⟨i, hhead⟩ := head_of_shift? h
  have harena := arena_of_shift? h
  have hpooling : rest.arena.pooling = l.arena.pooling := by rw [harena, Arena.pooling_shift]
  have hroom : rest.length ≤ l.cells := by
    have hshorter := length_of_shift? h
    have hbefore := l.length_le_cells
    omega
  refine ⟨hpooling, ?_⟩
  rw [Nat.max_eq_left hroom, keeps, hpooling, cells, length, harena]
  exact Arena.nodes_shift hhead

/-- Clearing is nothing where there is no entry; what was settled is settled still. -/
theorem settles_clear (h : l.Settles l) : l.Settles l.clear := by
  cases htail : l.arena.tail with
  | none =>
      have hsame : l.clear = l := by simp only [clear, Arena.clear, htail]
      rw [hsame]
      exact h
  | some t =>
      have hpooling : l.clear.arena.pooling = l.arena.pooling := l.arena.pooling_clear
      have hempty : l.clear.length = 0 := by rw [← length_toList, toList_clear, List.length_nil]
      refine ⟨hpooling, ?_⟩
      rw [hempty, Nat.max_zero, keeps, hpooling]
      exact Arena.nodes_clear htail

/-- Several pushes make the list longer all the way. -/
theorem settles_append (h : l.Settles l) (vs : List α) : l.Settles (l.append vs) := by
  induction vs generalizing l with
  | nil => exact h
  | cons v vs ih =>
      have hpush := l.settles_push v
      have hlonger : (l.push v).length ≤ ((l.push v).append vs).length := by
        rw [← length_toList, ← length_toList, toList_append, List.length_append]
        exact Nat.le_add_right ..
      exact hpush.trans (ih hpush.settled) (fun _ => l.keeps_push v)
        (Nat.le_trans hlonger (Nat.le_max_right ..))

/-- Several shifts make the list shorter all the way. -/
theorem settles_drain (h : l.Settles l) (limit : Nat) : l.Settles (l.drain limit).2 := by
  induction limit generalizing l with
  | zero => exact h
  | succ limit ih =>
      cases hs : l.shift? with
      | none =>
          simp only [drain, hs]
          exact h
      | some entry =>
          obtain ⟨v, rest⟩ := entry
          have hshift := settles_shift hs
          have hlater := ih hshift.settled
          have hshorter : (rest.drain limit).2.length ≤ rest.length := by
            rw [← length_toList, toList_drain, List.length_drop, length_toList]
            exact Nat.sub_le ..
          have hroom : rest.length ≤ l.cells := by
            have := length_of_shift? hs
            have := l.length_le_cells
            omega
          simp only [drain, hs]
          refine hshift.trans hlater (fun hkeeps => ?_) (Nat.le_trans hroom (Nat.le_max_left ..))
          simp only [keeps, hlater.pooling, Bool.or_eq_true, bne_iff_ne] at hkeeps ⊢
          exact hkeeps.imp_right fun hleft => by omega

/-- All steps do this to the cells. -/
theorem settles_perform (render : α → String) (h : l.Settles l) (s : Step α) :
    l.Settles (perform render l s).1 := by
  cases s with
  | push v => exact l.settles_push v
  | shift =>
      cases hs : l.shift? with
      | none =>
          simp only [perform, hs]
          exact h
      | some entry =>
          simp only [perform, hs]
          exact settles_shift hs
  | clear => exact settles_clear h
  | extend vs => exact settles_append h vs
  | drain limit => exact settles_drain h _
  | iterate skip => exact h
  | display => exact h
  | unknown => exact h

/-! ### The high-water mark -/

/-- How long the list is after each of the steps, latest first. -/
def lengths (render : α → String) (l : WaitList α) (steps : List (Step α)) : List Nat :=
  (run render l steps).reverse.map fun r => r.2.length

/-- The greatest of the lengths that a list has had, given latest first.  A list that does not
keep free cells has only those since it was last empty counted. -/
def mark (pooling : Bool) (lengths : List Nat) : Nat :=
  (if pooling then lengths else lengths.takeWhile (· != 0)).foldr max 0

theorem mark_cons (pooling : Bool) (n : Nat) (past : List Nat) :
    mark pooling (n :: past) = if pooling || n != 0 then max (mark pooling past) n else 0 := by
  cases pooling with
  | true => exact Nat.max_comm ..
  | false =>
      simp only [mark, Bool.false_eq_true, if_false, List.takeWhile_cons, Bool.false_or]
      split
      · exact Nat.max_comm ..
      · rfl

theorem lengths_cons (render : α → String) (l : WaitList α) (s : Step α) (steps : List (Step α)) :
    lengths render l (s :: steps) =
      lengths render (perform render l s).1 steps ++ [(perform render l s).1.length] := by
  simp [lengths, run, snapshot]

/-- Over a script, the number of cells follows the mark. -/
theorem cells_after (render : α → String) {past : List Nat} (h : l.Settles l)
    (hcells : l.cells = mark l.arena.pooling past) (steps : List (Step α)) :
    (after render l steps).arena.pooling = l.arena.pooling ∧
      (after render l steps).Settles (after render l steps) ∧
      (after render l steps).cells =
        mark l.arena.pooling (lengths render l steps ++ past) := by
  induction steps generalizing l past with
  | nil => exact ⟨rfl, h, hcells⟩
  | cons s steps ih =>
      have hstep := settles_perform render h s
      have hnext : (perform render l s).1.cells =
          mark (perform render l s).1.arena.pooling ((perform render l s).1.length :: past) := by
        rw [hstep.cells, mark_cons, hstep.pooling, ← hcells, keeps, hstep.pooling]
      obtain ⟨hpooling, hsettled, hlater⟩ := ih hstep.settled hnext
      refine ⟨hpooling.trans hstep.pooling, hsettled, ?_⟩
      rw [lengths_cons, List.append_assoc, ← hstep.pooling]
      exact hlater

/-- As long as the list gets no longer than some bound, there are no more cells than that. -/
theorem cells_le_of_churn (render : α → String) {bound : Nat} (h : l.Settles l)
    (hcells : l.cells ≤ bound) {steps : List (Step α)}
    (hbound : ∀ r ∈ run render l steps, r.2.length ≤ bound) :
    ∀ r ∈ run render l steps, r.2.pooled + r.2.length ≤ bound := by
  induction steps generalizing l with
  | nil => simp [run]
  | cons s steps ih =>
      obtain ⟨hlength, hlater⟩ := List.forall_mem_cons.1 hbound
      have hstep := settles_perform render h s
      have hnext : (perform render l s).1.cells ≤ bound := by
        rw [hstep.cells]
        split
        · exact Nat.max_le.2 ⟨hcells, hlength⟩
        · exact Nat.zero_le _
      refine List.forall_mem_cons.2 ⟨?_, ih hstep.settled hnext hlater⟩
      exact Nat.le_trans (Nat.le_of_eq (pooled_add_length _)) hnext

/-- As long as the list gets no longer than it has cells, and lets go of none of them, it has
the same number. -/
theorem cells_eq_of_churn (render : α → String) (h : l.Settles l) {steps : List (Step α)}
    (hchurn : ∀ r ∈ run render l steps,
      r.2.length ≤ l.cells ∧ (l.arena.pooling = true ∨ r.2.length ≠ 0)) :
    ∀ r ∈ run render l steps, r.2.pooled + r.2.length = l.cells := by
  induction steps generalizing l with
  | nil => simp [run]
  | cons s steps ih =>
      obtain ⟨⟨hlength, hkept⟩, hlater⟩ := List.forall_mem_cons.1 hchurn
      have hstep := settles_perform render h s
      have hkeeps : (perform render l s).1.keeps = true := by
        rw [keeps, hstep.pooling, Bool.or_eq_true, bne_iff_ne]
        exact hkept
      have hnext : (perform render l s).1.cells = l.cells := by
        rw [hstep.cells, if_pos hkeeps]
        exact Nat.max_eq_left hlength
      rw [← hnext, ← hstep.pooling] at hlater
      refine List.forall_mem_cons.2 ⟨(pooled_add_length _).trans hnext, ?_⟩
      rw [← hnext]
      exact ih hstep.settled hlater

/-- **The cells of a wait list never come to more than its high-water mark.**  After each script
the cells, live and free, are as many as there have been entries at once: ever, if free cells
are kept, and since the list was last empty, if not.  So a push adds a cell only where all
cells hold entries, and none below the mark; and steps that stay below it add none, whichever
they are. -/
theorem cells_eq_mark (render : α → String) (config : Config) (steps : List (Step α)) :
    let l := after render (.empty config) steps
    let m := mark config.nodePooling (lengths render (.empty config) steps)
    l.pooled + l.length = m ∧
    -- one push
    (∀ v, (l.push v).cells = max m (l.length + 1) ∧
      (l.cells < (l.push v).cells → ∀ i < l.cells, i ∈ l.arena.liveCells)) ∧
    -- more steps
    ∀ more, (∀ r ∈ run render l more, r.2.length ≤ m) →
      (∀ r ∈ run render l more, r.2.pooled + r.2.length ≤ m) ∧
      ((∀ r ∈ run render l more, config.nodePooling = true ∨ r.2.length ≠ 0) →
        ∀ r ∈ run render l more, r.2.pooled + r.2.length = m) := by
  intro l m
  have hnone : (empty config : WaitList α).cells = mark config.nodePooling [] := by
    cases config.nodePooling <;> rfl
  obtain ⟨hpooling, hsettled, hcells⟩ := cells_after render (settles_empty config) hnone steps
  rw [List.append_nil] at hcells
  have hmark : l.cells = m := hcells
  refine ⟨(pooled_add_length l).trans hmark, fun v => ⟨hmark ▸ l.cells_push v, ?_⟩, ?_⟩
  · intro hgrows i hi
    obtain ⟨live, free, h⟩ := l.sound
    rw [h.liveCells_eq]
    exact h.mem_live_of_grows hgrows hi
  · intro more hbelow
    refine ⟨cells_le_of_churn render hsettled (Nat.le_of_eq hmark) hbelow, fun hkept => ?_⟩
    rw [← hmark] at hbelow ⊢
    refine cells_eq_of_churn render hsettled fun r hr => ⟨hbelow r hr, ?_⟩
    rw [show l.arena.pooling = config.nodePooling from hpooling]
    exact hkept r hr

/-- A list that has been cleared goes on with its cells only if it keeps free ones. -/
example (pooling : Bool) :
    (run toString (.empty { nodePooling := pooling })
        [.extend [1, 2, 3], .drain (some 2), .clear, .push 4]).map
          (fun r => (r.2.pooled, r.2.length)) =
      if pooling then [(0, 3), (2, 1), (3, 0), (2, 1)] else [(0, 3), (2, 1), (0, 0), (0, 1)] := by
  cases pooling <;> rfl

end WaitList

end BlockingSync
