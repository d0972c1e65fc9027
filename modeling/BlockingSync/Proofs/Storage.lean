/-
A wait list behaves as a plain list, whatever its storage has been through.

What a step yields is computed by following pointers, and the same step on a plain list
(`Step.onPlain`) is append, take and drop.  Sound pointers make the two agree: an iterator
that stands at a chain yields the entries of its cells and then nothing (`collect_eq`).  The
pointers stay sound over every script, which comes to more than a right answer: each chain
visits what it should and nothing else, so no index leaves the array and no count falls below
zero (`Intact`).
-/
import BlockingSync.WaitList.Script
import Mathlib.Data.List.Perm.Subperm

namespace BlockingSync

namespace Arena

variable {α : Type} {a : Arena α} {live free cells : List Nat} {cursor : Option Nat}

/-! ### The chains -/

/-- What the pointers of an arena come to. -/
structure Intact (a : Arena α) : Prop where
  /-- Following successors from `head` visits the live cells and ends. -/
  live_linked : Linked a.nodes a.head a.liveCells
  live_length : a.liveCells.length = a.size
  live_full : ∀ i ∈ a.liveCells, (valueAt a.nodes i).isSome
  tail_eq : a.tail = a.liveCells.getLast?
  /-- Following successors from `pool` visits the free cells and ends. -/
  free_linked : Linked a.nodes a.pool a.freeCells
  free_length : a.freeCells.length = a.nodes.size - a.size
  free_vacant : ∀ i ∈ a.freeCells, valueAt a.nodes i = none
  /-- No cell is visited twice, neither by one chain nor by both. -/
  nodup : (a.liveCells ++ a.freeCells).Nodup
  covers : ∀ i, i < a.nodes.size ↔ i ∈ a.liveCells ++ a.freeCells
  /-- All pointers lead into the array. -/
  in_bounds : ∀ i, a.head = some i ∨ a.tail = some i ∨ a.pool = some i ∨
    (∃ j, nextOf a.nodes j = some i) → i < a.nodes.size
  /-- There is an entry to count down for whenever one is taken out. -/
  size_pos : a.head ≠ none → 0 < a.size
  size_le : a.size ≤ a.nodes.size

theorem Linked.next_mem (h : Linked a.nodes cursor cells) {i j : Nat} (hi : i ∈ cells)
    (hnext : nextOf a.nodes i = some j) : j ∈ cells := by
  induction cells generalizing cursor with
  | nil => exact absurd hi List.not_mem_nil
  | cons k cells ih =>
      obtain ⟨-, -, hrest⟩ := h
      rcases List.mem_cons.1 hi with rfl | hi
      · cases cells with
        | nil => simp [hnext, Linked] at hrest
        | cons l cells =>
            obtain rfl : j = l := Option.some.inj (hnext.symm.trans hrest.1)
            simp
      · exact List.mem_cons_of_mem _ (ih hrest hi)

theorem Linked.start_mem (h : Linked a.nodes cursor cells) {i : Nat} (hi : cursor = some i) :
    i ∈ cells := by
  cases cells with
  | nil => simp [Linked, hi] at h
  | cons k cells =>
      obtain rfl : i = k := Option.some.inj (hi.symm.trans h.1)
      exact List.mem_cons_self

theorem Chains.lt_size (h : Chains a live free) {i : Nat} (hi : i ∈ live ++ free) :
    i < a.nodes.size := by
  rcases List.mem_append.1 hi with hi | hi
  · exact h.live_linked.lt_size i hi
  · exact h.free_linked.lt_size i hi

/-- The two chains have as many cells as the array, all different, so they miss none. -/
theorem Chains.mem_of_lt (h : Chains a live free) {i : Nat} (hi : i < a.nodes.size) :
    i ∈ live ++ free := by
  have hsub : live ++ free ⊆ List.range a.nodes.size := fun j hj =>
    List.mem_range.2 (h.lt_size hj)
  have hperm : (live ++ free).Perm (List.range a.nodes.size) := by
    refine (List.subperm_of_subset h.nodup hsub).perm_of_length_le ?_
    rw [List.length_range, List.length_append]
    exact Nat.le_of_eq h.covers.symm
  exact hperm.mem_iff.2 (List.mem_range.2 hi)

theorem Sound.intact (h : a.Sound) : a.Intact := by
  obtain ⟨live, free, h⟩ := h
  have hcovers := h.covers
  have hsize := h.size_eq
  refine {
    live_linked := h.liveCells_eq ▸ h.live_linked
    live_length := by rw [h.liveCells_eq, hsize]
    live_full := h.liveCells_eq ▸ h.live_full
    tail_eq := h.liveCells_eq ▸ h.tail_eq
    free_linked := h.freeCells_eq ▸ h.free_linked
    free_length := by rw [h.freeCells_eq]; omega
    free_vacant := h.freeCells_eq ▸ h.free_vacant
    nodup := by rw [h.liveCells_eq, h.freeCells_eq]; exact h.nodup
    covers := fun i => by
      rw [h.liveCells_eq, h.freeCells_eq]
      exact ⟨h.mem_of_lt, h.lt_size⟩
    in_bounds := ?_
    size_pos := fun hhead => ?_
    size_le := by omega }
  · rintro i (hi | hi | hi | ⟨j, hi⟩)
    · exact h.live_linked.lt_size i (h.live_linked.start_mem hi)
    · exact h.live_linked.lt_size i (List.mem_of_getLast? (h.tail_eq.symm.trans hi))
    · exact h.free_linked.lt_size i (h.free_linked.start_mem hi)
    · have hj : j < a.nodes.size := by
        rcases Nat.lt_or_ge j a.nodes.size with hlt | hge
        · exact hlt
        · simp [nextOf, Array.getElem?_eq_none hge] at hi
      rcases List.mem_append.1 (h.mem_of_lt hj) with hj | hj
      · exact h.live_linked.lt_size i (h.live_linked.next_mem hj hi)
      · exact h.free_linked.lt_size i (h.free_linked.next_mem hj hi)
  · have hlive : live ≠ [] := fun hc => hhead (h.live_linked.start_eq_none_iff.2 hc)
    rw [hsize]
    exact List.length_pos_iff.2 hlive

/-! ### Iterators -/

/-- An iterator steps along the chain at which it stands. -/
theorem skip_linked (h : Linked a.nodes cursor cells) (count : Nat) :
    Linked a.nodes (a.skip count cursor) (cells.drop count) := by
  induction count generalizing cursor cells with
  | zero => exact h
  | succ count ih =>
      cases cells with
      | nil =>
          obtain rfl : cursor = none := h
          exact rfl
      | cons i cells =>
          obtain ⟨rfl, -, hrest⟩ := h
          exact ih hrest

theorem filterMap_drop (hfull : ∀ i ∈ cells, (valueAt a.nodes i).isSome) (count : Nat) :
    (cells.filterMap (valueAt a.nodes)).drop count =
      (cells.drop count).filterMap (valueAt a.nodes) := by
  induction cells generalizing count with
  | nil => simp
  | cons i cells ih =>
      obtain ⟨hi, hcells⟩ := List.forall_mem_cons.1 hfull
      obtain ⟨v, hv⟩ := Option.isSome_iff_exists.1 hi
      cases count with
      | zero => rfl
      | succ count => simp only [List.filterMap_cons, hv, List.drop_succ_cons, ih hcells]

/-- It yields the entries of the chain, and is beyond the end then. -/
theorem collect_eq (h : Linked a.nodes cursor cells)
    (hfull : ∀ i ∈ cells, (valueAt a.nodes i).isSome) {fuel : Nat} (hfuel : cells.length < fuel) :
    a.collect fuel cursor = (cells.filterMap (valueAt a.nodes), none) := by
  induction cells generalizing cursor fuel with
  | nil =>
      obtain rfl : cursor = none := h
      cases fuel with
      | zero => exact absurd hfuel (Nat.not_lt_zero _)
      | succ fuel => rfl
  | cons i cells ih =>
      obtain ⟨rfl, -, hrest⟩ := h
      obtain ⟨hi, hcells⟩ := List.forall_mem_cons.1 hfull
      obtain ⟨v, hv⟩ := Option.isSome_iff_exists.1 hi
      cases fuel with
      | zero => exact absurd hfuel (Nat.not_lt_zero _)
      | succ fuel =>
          have hlater := ih hrest hcells (Nat.lt_of_succ_lt_succ hfuel)
          simp only [collect, next, hv, hlater, List.filterMap_cons]

end Arena

namespace WaitList

variable {α : Type} {l : WaitList α}

/-- An iterator yields what it has not passed, and then nothing. -/
theorem iterate_eq (l : WaitList α) (count : Nat) :
    l.iterate count = (l.toList.drop count, none) := by
  obtain ⟨live, free, h⟩ := l.sound
  have hlength : (live.drop count).length < l.arena.nodes.size + 1 := by
    have hcovers := h.covers
    rw [List.length_drop]
    omega
  have hfull : ∀ i ∈ live.drop count, (Arena.valueAt l.arena.nodes i).isSome :=
    fun i hi => h.live_full i (List.mem_of_mem_drop hi)
  have hlinked := Arena.skip_linked h.live_linked count
  have hentries : l.toList.drop count =
      (live.drop count).filterMap (Arena.valueAt l.arena.nodes) := by
    rw [toList, h.toList_eq, Arena.filterMap_drop h.live_full]
  simp only [iterate, Arena.collect_eq hlinked hfull hlength, Arena.next, hentries]

theorem toVec_eq (l : WaitList α) : l.toVec = l.toList := by
  rw [toVec, iterate_eq, List.drop_zero]

/-! ### Scripts -/

/-- A step on a plain list. -/
def Step.onPlain (render : α → String) (vs : List α) : Step α → List α × Outcome α
  | .push v => (vs ++ [v], .done)
  | .shift => (vs.tail, .entry vs.head?)
  | .clear => ([], .done)
  | .extend ws => (vs ++ ws, .done)
  | .drain limit =>
    let count := limit.getD vs.length
    (vs.drop count, .drained (vs.take count) vs.length (vs.length - count))
  | .iterate skip => (vs, .seen (vs.drop skip) none)
  | .display => (vs, .shown ("[" ++ ", ".intercalate (vs.map render) ++ "]"))
  | .unknown => (vs, .badStep)

/-- A plain list as its observers see it; it keeps nothing for reuse. -/
def plainSnapshot (vs : List α) : Snapshot α :=
  ⟨vs.length, vs.isEmpty, 0, vs⟩

/-- The steps in order on a plain list, with a snapshot after each. -/
def runPlain (render : α → String) (vs : List α) : List (Step α) → List (Outcome α × Snapshot α)
  | [] => []
  | s :: steps =>
    let (vs, outcome) := s.onPlain render vs
    (outcome, plainSnapshot vs) :: runPlain render vs steps

/-- A snapshot without the number of cells that are kept for reuse. -/
def Snapshot.withoutPooled (s : Snapshot α) : Snapshot α :=
  { s with pooled := 0 }

/-- The list after the steps. -/
def after (render : α → String) (l : WaitList α) (steps : List (Step α)) : WaitList α :=
  steps.foldl (fun l s => (perform render l s).1) l

/-- A step yields what it yields on a plain list, and leaves what it leaves there. -/
theorem onPlain_eq (render : α → String) (l : WaitList α) (s : Step α) :
    s.onPlain render l.toList = ((perform render l s).1.toList, (perform render l s).2) := by
  cases s with
  | push v => simp [Step.onPlain, perform]
  | shift =>
      cases hl : l.toList with
      | nil => simp [Step.onPlain, perform, shift?_eq_none hl, hl]
      | cons v vs =>
          obtain ⟨rest, hrest, rfl⟩ := shift?_eq_some hl
          simp [Step.onPlain, perform, hrest]
  | clear => simp [Step.onPlain, perform]
  | extend vs => simp [Step.onPlain, perform]
  | drain limit =>
      simp [Step.onPlain, perform, ← length_toList]
  | iterate skip => simp [Step.onPlain, perform, iterate_eq]
  | display => simp [Step.onPlain, perform, display, toVec_eq]
  | unknown => rfl

theorem snapshot_eq (l : WaitList α) : l.snapshot.withoutPooled = plainSnapshot l.toList := by
  have hempty : l.isEmpty = l.toList.isEmpty := by
    rw [Bool.eq_iff_iff, isEmpty_iff, List.isEmpty_iff]
  simp only [snapshot, Snapshot.withoutPooled, plainSnapshot, length_toList, hempty, toVec_eq]

theorem run_eq (render : α → String) (l : WaitList α) (steps : List (Step α)) :
    (run render l steps).map (fun r => (r.1, r.2.withoutPooled)) =
      runPlain render l.toList steps := by
  induction steps generalizing l with
  | nil => rfl
  | cons s steps ih =>
      simp only [run, runPlain, List.map_cons, onPlain_eq, ih, snapshot_eq]

/-- **A wait list is a plain list to all who look at it, and its pointers deserve trust.**  For
all settings, a script yields what it yields on a plain list; and after each script the chains
visit the entries in order and the free cells, every cell once, and lead nowhere else. -/
theorem refines_plain (render : α → String) (config : Config) (steps : List (Step α)) :
    (run render (.empty config) steps).map (fun r => (r.1, r.2.withoutPooled)) =
        runPlain render [] steps ∧
      (after render (.empty config) steps).arena.Intact :=
  ⟨run_eq render (.empty config) steps, (after render (.empty config) steps).sound.intact⟩

end WaitList

end BlockingSync
