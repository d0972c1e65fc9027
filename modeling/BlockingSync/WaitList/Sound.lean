/-
The pointers of an arena deserve trust.

`Arena.Sound` says that the live chain and the free chain are disjoint, that
together they visit every cell exactly once, that live cells hold entries and free
cells hold none, and that `tail` and `size` agree with the live chain.  An empty
arena is sound and every operation keeps it so.

The proofs carry the two chains as explicit lists of cells (`Chains`).  What an
operation does to the pointers is then an equation between such lists, and a write
to a cell outside a chain leaves that chain alone (`Linked.modify`).
-/
import BlockingSync.WaitList.Arena

namespace BlockingSync

namespace Arena

variable {α : Type}

/-- Following successors from `start` visits exactly the given cells and then ends. -/
def Linked (nodes : Array (Node α)) : Option Nat → List Nat → Prop
  | start, [] => start = none
  | start, i :: cells => start = some i ∧ i < nodes.size ∧ Linked nodes (nextOf nodes i) cells

/-- The live and the free cells of a sound arena, each in chain order. -/
structure Chains (a : Arena α) (live free : List Nat) : Prop where
  /-- The live chain runs from `head`. -/
  live_linked : Linked a.nodes a.head live
  /-- The free chain runs from `pool`. -/
  free_linked : Linked a.nodes a.pool free
  /-- No cell is visited twice. -/
  nodup : (live ++ free).Nodup
  /-- Every cell is visited. -/
  covers : live.length + free.length = a.nodes.size
  /-- The live chain ends at `tail`. -/
  tail_eq : a.tail = live.getLast?
  /-- `size` counts the live cells. -/
  size_eq : a.size = live.length
  /-- Live cells hold entries. -/
  live_full : ∀ i ∈ live, (valueAt a.nodes i).isSome
  /-- Free cells hold none. -/
  free_vacant : ∀ i ∈ free, valueAt a.nodes i = none

/-- Some two lists of cells are the chains of the arena. -/
def Sound (a : Arena α) : Prop :=
  ∃ live free, Chains a live free

/-! ### Reading after a write -/

theorem nextOf_modify (nodes : Array (Node α)) (i j : Nat) (f : Node α → Node α) :
    nextOf (nodes.modify i f) j =
      if i = j then nodes[j]?.bind (fun node => (f node).next) else nextOf nodes j := by
  unfold nextOf
  rw [Array.getElem?_modify]
  split
  · exact Option.bind_map ..
  · rfl

theorem valueAt_modify (nodes : Array (Node α)) (i j : Nat) (f : Node α → Node α) :
    valueAt (nodes.modify i f) j =
      if i = j then nodes[j]?.bind (fun node => (f node).value) else valueAt nodes j := by
  unfold valueAt
  rw [Array.getElem?_modify]
  split
  · exact Option.bind_map ..
  · rfl

theorem nextOf_push_of_lt {nodes : Array (Node α)} {i : Nat} (node : Node α) (h : i < nodes.size) :
    nextOf (nodes.push node) i = nextOf nodes i := by
  simp [nextOf, Array.getElem?_push, Nat.ne_of_lt h]

theorem valueAt_push_of_lt {nodes : Array (Node α)} {i : Nat} (node : Node α)
    (h : i < nodes.size) : valueAt (nodes.push node) i = valueAt nodes i := by
  simp [valueAt, Array.getElem?_push, Nat.ne_of_lt h]

theorem nextOf_push_self (nodes : Array (Node α)) (node : Node α) :
    nextOf (nodes.push node) nodes.size = node.next := by
  simp [nextOf]

theorem valueAt_push_self (nodes : Array (Node α)) (node : Node α) :
    valueAt (nodes.push node) nodes.size = node.value := by
  simp [valueAt]

theorem size_relink (nodes : Array (Node α)) (i : Nat) (target : Option Nat) :
    (relink nodes i target).size = nodes.size :=
  Array.size_modify ..

theorem nextOf_relink {nodes : Array (Node α)} {i : Nat} (h : i < nodes.size) (j : Nat)
    (target : Option Nat) :
    nextOf (relink nodes i target) j = if i = j then target else nextOf nodes j := by
  unfold relink
  rw [nextOf_modify]
  split
  · subst i; simp [h]
  · rfl

theorem valueAt_relink (nodes : Array (Node α)) (i j : Nat) (target : Option Nat) :
    valueAt (relink nodes i target) j = valueAt nodes j := by
  unfold relink
  rw [valueAt_modify]
  split
  · subst i; rfl
  · rfl

theorem follow_none (nodes : Array (Node α)) (fuel : Nat) : follow nodes fuel none = [] := by
  cases fuel <;> rfl

/-! ### Chains under writes -/

namespace Linked

variable {nodes : Array (Node α)} {start : Option Nat} {cells : List Nat}

theorem lt_size (h : Linked nodes start cells) : ∀ i ∈ cells, i < nodes.size := by
  induction cells generalizing start with
  | nil => simp
  | cons j cells ih =>
      intro i hi
      rcases List.mem_cons.1 hi with rfl | hi
      · exact h.2.1
      · exact ih h.2.2 i hi

/-- A chain depends only on the successors of its own cells. -/
theorem congr {nodes' : Array (Node α)} (h : Linked nodes start cells)
    (hsize : nodes.size ≤ nodes'.size) (hnext : ∀ i ∈ cells, nextOf nodes' i = nextOf nodes i) :
    Linked nodes' start cells := by
  induction cells generalizing start with
  | nil => exact h
  | cons j cells ih =>
      refine ⟨h.1, Nat.lt_of_lt_of_le h.2.1 hsize, ?_⟩
      rw [hnext j (by simp)]
      exact ih h.2.2 fun i hi => hnext i (by simp [hi])

/-- Writing a cell outside a chain leaves the chain as it was. -/
theorem modify (h : Linked nodes start cells) {i : Nat} (f : Node α → Node α) (hi : i ∉ cells) :
    Linked (nodes.modify i f) start cells := by
  refine h.congr (by simp) fun j hj => ?_
  rw [nextOf_modify, if_neg]
  rintro rfl
  exact hi hj

/-- Giving the last cell of a chain a successor puts two chains together. -/
theorem append {rest : List Nat} {target : Option Nat} {t : Nat}
    (h : Linked nodes start (cells ++ [t])) (hrest : Linked nodes target rest)
    (hcells : t ∉ cells) (hr : t ∉ rest) :
    Linked (relink nodes t target) start (cells ++ t :: rest) := by
  induction cells generalizing start with
  | nil =>
      refine ⟨h.1, by simpa [size_relink] using h.2.1, ?_⟩
      rw [nextOf_relink h.2.1, if_pos rfl]
      exact hrest.modify _ hr
  | cons j cells ih =>
      have hj : t ≠ j := by rintro rfl; simp at hcells
      have ht : t < nodes.size := h.lt_size t (by simp)
      refine ⟨h.1, by simpa [size_relink] using h.2.1, ?_⟩
      rw [nextOf_relink ht, if_neg hj]
      exact ih h.2.2 (by simp at hcells; exact hcells.2)

/-- Following the pointers finds the chain. -/
theorem follow_eq (h : Linked nodes start cells) {fuel : Nat} (hf : cells.length ≤ fuel) :
    follow nodes fuel start = cells := by
  induction cells generalizing start fuel with
  | nil => cases h; cases fuel <;> rfl
  | cons j cells ih =>
      obtain ⟨rfl, -, hrest⟩ := h
      cases fuel with
      | zero => simp at hf
      | succ fuel => rw [follow, ih hrest (by simpa using hf)]

theorem start_eq_none_iff (h : Linked nodes start cells) : start = none ↔ cells = [] := by
  cases cells with
  | nil => simpa [Linked] using h
  | cons j cells => simp [h.1]

end Linked

private theorem eq_nil_or_snoc (l : List Nat) : l = [] ∨ ∃ init t, l = init ++ [t] := by
  rcases List.eq_nil_or_concat l with h | ⟨init, t, h⟩
  · exact .inl h
  · exact .inr ⟨init, t, by simpa using h⟩

/-! ### What the chains of a sound arena say -/

namespace Chains

variable {a : Arena α} {live free : List Nat}

theorem liveCells_eq (h : Chains a live free) : a.liveCells = live :=
  h.live_linked.follow_eq (by have := h.covers; omega)

theorem freeCells_eq (h : Chains a live free) : a.freeCells = free :=
  h.free_linked.follow_eq (by have := h.covers; omega)

theorem toList_eq (h : Chains a live free) : a.toList = live.filterMap (valueAt a.nodes) := by
  rw [toList, h.liveCells_eq]

theorem length_toList (h : Chains a live free) : a.toList.length = a.size := by
  have key : ∀ l : List Nat, (∀ i ∈ l, (valueAt a.nodes i).isSome) →
      (l.filterMap (valueAt a.nodes)).length = l.length := by
    intro l hl
    induction l with
    | nil => rfl
    | cons i l ih =>
        obtain ⟨v, hv⟩ := Option.isSome_iff_exists.1 (hl i (by simp))
        simp [hv, ih fun j hj => hl j (by simp [hj])]
  rw [h.toList_eq, key live h.live_full, h.size_eq]

end Chains

theorem filterMap_valueAt_congr {nodes nodes' : Array (Node α)} {cells : List Nat}
    (h : ∀ i ∈ cells, valueAt nodes' i = valueAt nodes i) :
    cells.filterMap (valueAt nodes') = cells.filterMap (valueAt nodes) := by
  induction cells with
  | nil => rfl
  | cons i cells ih =>
      simp only [List.filterMap_cons, h i (by simp), ih fun j hj => h j (by simp [hj])]

/-! ### Each operation keeps an arena sound -/

theorem chains_empty (pooling : Bool) : Chains (empty pooling : Arena α) [] [] where
  live_linked := rfl
  free_linked := rfl
  nodup := by simp
  covers := rfl
  tail_eq := rfl
  size_eq := rfl
  live_full := by simp
  free_vacant := by simp

/-- Releasing leaves the entries alone; the free chain stays or is emptied with the array. -/
theorem Chains.releaseIfDrained {a : Arena α} {live free : List Nat} (h : Chains a live free) :
    Chains a.releaseIfDrained live (if a.pooling || a.size != 0 then free else []) := by
  unfold Arena.releaseIfDrained
  split
  · exact h
  · rename_i hkeep
    have hsize : a.size = 0 := by
      simp only [Bool.or_eq_true, not_or] at hkeep
      simpa using hkeep.2
    have hlive : live = [] := by
      have := h.size_eq
      rw [hsize] at this
      exact List.length_eq_zero_iff.1 this.symm
    subst hlive
    exact {
      live_linked := h.live_linked
      free_linked := rfl
      nodup := by simp
      covers := rfl
      tail_eq := h.tail_eq
      size_eq := h.size_eq
      live_full := by simp
      free_vacant := by simp }

theorem toList_releaseIfDrained {a : Arena α} {live free : List Nat} (h : Chains a live free) :
    a.releaseIfDrained.toList = a.toList := by
  unfold Arena.releaseIfDrained
  split
  · rfl
  · rename_i hkeep
    have hsize : a.size = 0 := by
      simp only [Bool.or_eq_true, not_or] at hkeep
      simpa using hkeep.2
    have hlive : live = [] := by
      have := h.size_eq
      rw [hsize] at this
      exact List.length_eq_zero_iff.1 this.symm
    subst hlive
    have hhead : a.head = none := h.live_linked
    simp [toList, liveCells, hhead, follow_none]

/-- The cell of a new entry leaves the free chain, or the array grows by it. -/
structure Allocated (a b : Arena α) (i : Nat) (v : α) (live free : List Nat) : Prop where
  live_linked : Linked b.nodes a.head live
  free_linked : Linked b.nodes b.pool free
  nodup : (i :: (live ++ free)).Nodup
  covers : live.length + free.length + 1 = b.nodes.size
  value_eq : valueAt b.nodes i = some v
  next_eq : nextOf b.nodes i = none
  lt_size : i < b.nodes.size
  live_eq : ∀ j ∈ live, valueAt b.nodes j = valueAt a.nodes j
  free_vacant : ∀ j ∈ free, valueAt b.nodes j = none

theorem Chains.allocate {a : Arena α} {live free : List Nat} (h : Chains a live free) (v : α) :
    Allocated a (a.allocate v).2 (a.allocate v).1 v live free.tail := by
  have hnodup := h.nodup
  unfold Arena.allocate
  cases hpool : a.pool with
  | some i =>
      obtain ⟨rest, rfl⟩ : ∃ rest, free = i :: rest := by
        have hfree := h.free_linked
        rw [hpool] at hfree
        cases free with
        | nil => simp [Linked] at hfree
        | cons j rest => exact ⟨rest, by rw [Option.some.inj hfree.1]⟩
      have hfree := h.free_linked
      rw [List.nodup_append] at hnodup
      obtain ⟨hl, hf, hdisj⟩ := hnodup
      have hilive : i ∉ live := fun hi => hdisj i hi i (by simp) rfl
      have hirest : i ∉ rest := (List.nodup_cons.1 hf).1
      have hi : i < a.nodes.size := hfree.2.1
      exact {
        live_linked := h.live_linked.modify (fun _ => ⟨some v, none⟩) hilive
        free_linked := hfree.2.2.modify (fun _ => ⟨some v, none⟩) hirest
        nodup := by
          refine List.nodup_cons.2 ⟨by simp [hilive, hirest], ?_⟩
          rw [List.nodup_append]
          exact ⟨hl, (List.nodup_cons.1 hf).2,
            fun x hx y hy => hdisj x hx y (by simp at hy ⊢; exact .inr hy)⟩
        covers := by have := h.covers; simp at this ⊢; omega
        value_eq := by simp [valueAt_modify, hi]
        next_eq := by simp [nextOf_modify, hi]
        lt_size := by simpa using hi
        live_eq := by
          intro j hj
          rw [valueAt_modify, if_neg]
          rintro rfl
          exact hilive hj
        free_vacant := by
          intro j hj
          simp only [List.tail_cons] at hj
          rw [valueAt_modify, if_neg]
          · exact h.free_vacant j (by simp [hj])
          · rintro rfl
            exact hirest hj }
  | none =>
      have hfree := h.free_linked
      rw [hpool] at hfree
      obtain rfl : free = [] := by
        cases free with
        | nil => rfl
        | cons j rest => simp [Linked] at hfree
      have hlt := h.live_linked.lt_size
      exact {
        live_linked := h.live_linked.congr (by simp) fun j hj => nextOf_push_of_lt _ (hlt j hj)
        free_linked := by simp [Linked]
        nodup := by
          refine List.nodup_cons.2 ⟨?_, by simpa using hnodup⟩
          intro hmem
          have := hlt _ (by simpa using hmem)
          omega
        covers := by have := h.covers; simp at this ⊢; omega
        value_eq := valueAt_push_self _ _
        next_eq := nextOf_push_self _ _
        lt_size := by simp
        live_eq := fun j hj => valueAt_push_of_lt _ (hlt j hj)
        free_vacant := by simp }

theorem allocate_fields (a : Arena α) (v : α) :
    (a.allocate v).2.head = a.head ∧ (a.allocate v).2.tail = a.tail ∧
      (a.allocate v).2.size = a.size ∧ (a.allocate v).2.pooling = a.pooling := by
  unfold allocate
  split <;> simp

/-- A push adds one cell at the end of the live chain. -/
theorem Chains.push {a : Arena α} {live free : List Nat} (h : Chains a live free) (v : α) :
    Chains (a.push v) (live ++ [(a.allocate v).1]) free.tail ∧
      (live ++ [(a.allocate v).1]).filterMap (valueAt (a.push v).nodes) = a.toList ++ [v] := by
  have hall := h.allocate v
  obtain ⟨hhead, htail, hsize, -⟩ := allocate_fields a v
  have hnodup : (live ++ [(a.allocate v).1] ++ free.tail).Nodup := by
    have := hall.nodup
    simp only [List.nodup_cons, List.nodup_append, List.mem_append] at this ⊢
    grind
  have hfresh : (a.allocate v).1 ∉ live := by
    have := (List.nodup_cons.1 hall.nodup).1
    intro hmem
    exact this (by simp [hmem])
  rw [h.toList_eq]
  unfold Arena.push
  generalize hp : a.allocate v = p at *
  obtain ⟨i, b⟩ := p
  simp only at *
  rcases eq_nil_or_snoc live with rfl | ⟨init, t, rfl⟩
  · have htail' : b.tail = none := by rw [htail, h.tail_eq]; rfl
    rw [htail']
    refine ⟨{
      live_linked := ⟨rfl, hall.lt_size, hall.next_eq⟩
      free_linked := hall.free_linked
      nodup := hnodup
      covers := by have := hall.covers; simp at this ⊢; omega
      tail_eq := by simp
      size_eq := by simp [hsize, h.size_eq]
      live_full := by simp [hall.value_eq]
      free_vacant := hall.free_vacant }, ?_⟩
    simp [hall.value_eq]
  · have htail' : b.tail = some t := by rw [htail, h.tail_eq]; simp
    rw [htail']
    have ht : t ∉ init := by
      have := h.nodup
      simp only [List.nodup_append] at this
      intro hmem
      exact this.1.2.2 t hmem t (by simp) rfl
    have hti : t ≠ i := by rintro rfl; simp at hfresh
    have htfree : t ∉ free.tail := by
      intro hmem
      have := hall.nodup
      simp only [List.nodup_cons, List.nodup_append] at this
      exact this.2.2.2 t (by simp) t hmem rfl
    refine ⟨{
      live_linked := by
        have hsingle : Linked b.nodes (some i) [i] := ⟨rfl, hall.lt_size, hall.next_eq⟩
        have := hall.live_linked.append hsingle ht (by simpa using hti)
        rw [← hhead] at this
        simpa using this
      free_linked := hall.free_linked.modify (fun node => ⟨node.value, some i⟩) htfree
      nodup := hnodup
      covers := by have := hall.covers; simp [size_relink] at this ⊢; omega
      tail_eq := by simp
      size_eq := by simp [hsize, h.size_eq]
      live_full := by
        intro j hj
        rw [valueAt_relink]
        rcases List.mem_append.1 hj with hj | hj
        · rw [hall.live_eq j hj]; exact h.live_full j hj
        · obtain rfl := List.mem_singleton.1 hj
          simp [hall.value_eq]
      free_vacant := by
        intro j hj
        rw [valueAt_relink]
        exact hall.free_vacant j hj }, ?_⟩
    rw [List.filterMap_append,
      filterMap_valueAt_congr fun j hj => (valueAt_relink ..).trans (hall.live_eq j hj)]
    simp [valueAt_relink, hall.value_eq]

/-- Shifting a nonempty list moves its first cell to the front of the free chain. -/
theorem Chains.shift_cons {a : Arena α} {i : Nat} {live free : List Nat}
    (h : Chains a (i :: live) free) :
    ∃ v free', (a.shift).1 = some v ∧ Chains (a.shift).2 live free' ∧
      a.toList = v :: (a.shift).2.toList := by
  have hnodup := h.nodup
  simp only [List.cons_append, List.nodup_cons, List.mem_append, not_or,
    List.nodup_append] at hnodup
  obtain ⟨⟨hilive, hifree⟩, hl, hf, hdisj⟩ := hnodup
  obtain ⟨hhead, hi, hrest⟩ := h.live_linked
  obtain ⟨v, hv⟩ := Option.isSome_iff_exists.1 (h.live_full i (by simp))
  have htail : (if (nextOf a.nodes i).isSome then a.tail else none) = live.getLast? := by
    rw [h.tail_eq]
    cases live with
    | nil =>
        have : nextOf a.nodes i = none := hrest
        simp [this]
    | cons j live =>
        have : nextOf a.nodes i = some j := hrest.1
        simp [this]
  have hmoved : Chains
      { a with
        nodes := a.nodes.modify i fun _ => ⟨none, a.pool⟩
        head := nextOf a.nodes i
        tail := if (nextOf a.nodes i).isSome then a.tail else none
        pool := some i
        size := a.size - 1 } live (i :: free) := {
    live_linked := hrest.modify (fun _ => ⟨none, a.pool⟩) hilive
    free_linked := by
      refine ⟨rfl, by simpa using hi, ?_⟩
      rw [nextOf_modify, if_pos rfl]
      simpa [hi] using h.free_linked.modify _ hifree
    nodup := by
      simp only [List.nodup_append, List.nodup_cons]
      refine ⟨hl, ⟨hifree, hf⟩, ?_⟩
      intro x hx y hy
      rcases List.mem_cons.1 hy with rfl | hy
      · rintro rfl; exact hilive hx
      · exact hdisj x hx y hy
    covers := by have := h.covers; simp at this ⊢; omega
    tail_eq := htail
    size_eq := by simp [h.size_eq]
    live_full := by
      intro j hj
      rw [valueAt_modify, if_neg]
      · exact h.live_full j (by simp [hj])
      · rintro rfl; exact hilive hj
    free_vacant := by
      intro j hj
      rw [valueAt_modify]
      split
      · subst i; simp
      · rename_i hne
        refine h.free_vacant j ?_
        rcases List.mem_cons.1 hj with rfl | hj
        · exact absurd rfl hne
        · exact hj }
  have hshift : a.shift = (some v, Arena.releaseIfDrained
      { a with
        nodes := a.nodes.modify i fun _ => ⟨none, a.pool⟩
        head := nextOf a.nodes i
        tail := if (nextOf a.nodes i).isSome then a.tail else none
        pool := some i
        size := a.size - 1 }) := by
    simp only [Arena.shift, hhead, hv]
  refine ⟨v, _, by rw [hshift], by rw [hshift]; exact hmoved.releaseIfDrained, ?_⟩
  rw [hshift, toList_releaseIfDrained hmoved, hmoved.toList_eq, h.toList_eq]
  have hsame : ∀ j ∈ live,
      valueAt (a.nodes.modify i fun _ => ⟨none, a.pool⟩) j = valueAt a.nodes j := by
    intro j hj
    rw [valueAt_modify, if_neg]
    rintro rfl
    exact hilive hj
  simp [hv, filterMap_valueAt_congr hsame]

theorem Chains.shift_nil {a : Arena α} {free : List Nat} (h : Chains a [] free) :
    a.shift = (none, a) := by
  have hhead : a.head = none := h.live_linked
  simp [Arena.shift, hhead]

theorem size_vacate (nodes : Array (Node α)) (cells : List Nat) :
    (vacate nodes cells).size = nodes.size := by
  unfold vacate
  induction cells generalizing nodes with
  | nil => rfl
  | cons i cells ih => rw [List.foldl_cons, ih]; simp

theorem nextOf_vacate (nodes : Array (Node α)) (cells : List Nat) (j : Nat) :
    nextOf (vacate nodes cells) j = nextOf nodes j := by
  unfold vacate
  induction cells generalizing nodes with
  | nil => rfl
  | cons i cells ih =>
      rw [List.foldl_cons, ih, nextOf_modify]
      split
      · subst i; rfl
      · rfl

theorem valueAt_vacate (nodes : Array (Node α)) (cells : List Nat) (j : Nat) :
    valueAt (vacate nodes cells) j = if j ∈ cells then none else valueAt nodes j := by
  unfold vacate
  induction cells generalizing nodes with
  | nil => simp
  | cons i cells ih =>
      rw [List.foldl_cons, ih, valueAt_modify]
      by_cases hj : j ∈ cells
      · simp [hj]
      · by_cases hij : i = j
        · subst hij
          simp [hj]
        · have : j ≠ i := fun h => hij h.symm
          simp [hj, hij, this]

/-- Clearing puts the whole live chain in front of the free chain. -/
theorem Chains.clear {a : Arena α} {live free : List Nat} (h : Chains a live free) :
    ∃ free', Chains a.clear [] free' := by
  unfold Arena.clear
  rcases eq_nil_or_snoc live with rfl | ⟨init, t, rfl⟩
  · have : a.tail = none := by rw [h.tail_eq]; rfl
    rw [this]
    exact ⟨free, h⟩
  · have htail : a.tail = some t := by rw [h.tail_eq]; simp
    rw [htail]
    have hnodup := h.nodup
    simp only [List.nodup_append] at hnodup
    obtain ⟨⟨-, -, hinit⟩, -, hdisj⟩ := hnodup
    have ht : t ∉ init := fun hmem => hinit t hmem t (by simp) rfl
    have htfree : t ∉ free := fun hmem => hdisj t (by simp) t hmem rfl
    have hkeep : ∀ {start cells}, Linked a.nodes start cells →
        Linked (vacate a.nodes a.liveCells) start cells := fun hl =>
      hl.congr (Nat.le_of_eq (size_vacate ..).symm) fun j _ => nextOf_vacate ..
    have hspliced : Chains
        { a with
          nodes := relink (vacate a.nodes a.liveCells) t a.pool
          head := none
          tail := none
          pool := a.head
          size := 0 } [] (init ++ t :: free) := {
      live_linked := rfl
      free_linked := (hkeep h.live_linked).append (hkeep h.free_linked) ht htfree
      nodup := by simpa using h.nodup
      covers := by
        have := h.covers
        simp [size_relink, size_vacate] at this ⊢
        omega
      tail_eq := rfl
      size_eq := rfl
      live_full := by simp
      free_vacant := by
        intro j hj
        rw [valueAt_relink, valueAt_vacate, h.liveCells_eq]
        split
        · rfl
        · rename_i hlive
          refine h.free_vacant j ?_
          simp only [List.mem_append, List.mem_cons] at hj hlive
          grind }
    exact ⟨_, hspliced.releaseIfDrained⟩

theorem Sound.empty (pooling : Bool) : (Arena.empty pooling : Arena α).Sound :=
  ⟨[], [], chains_empty pooling⟩

theorem Sound.push {a : Arena α} (h : a.Sound) (v : α) : (a.push v).Sound := by
  obtain ⟨live, free, h⟩ := h
  exact ⟨_, _, (h.push v).1⟩

theorem Sound.shift {a : Arena α} (h : a.Sound) : (a.shift).2.Sound := by
  obtain ⟨live, free, h⟩ := h
  cases live with
  | nil => rw [h.shift_nil]; exact ⟨[], free, h⟩
  | cons i live =>
      obtain ⟨-, free', -, h', -⟩ := h.shift_cons
      exact ⟨live, free', h'⟩

theorem Sound.clear {a : Arena α} (h : a.Sound) : a.clear.Sound := by
  obtain ⟨live, free, h⟩ := h
  obtain ⟨free', h'⟩ := h.clear
  exact ⟨[], free', h'⟩

end Arena

end BlockingSync
