/-
The machine in which a scenario starts.

Every object that is made gets numbers that nobody has used, so what belongs to a queue
is shared with no other queue, and no name means it.
-/
import BlockingSync.Scenario
import BlockingSync.Proofs.Sound

namespace BlockingSync

variable {α : Type}

namespace Machine

/-- Whether all numbers that are in use are below those that are not. -/
structure Numbered (M : Machine α) : Prop where
  mutex_lt : ∀ q < M.queues.size, (M.queue q).mutex < M.mutexes.size
  condition_lt : ∀ q < M.queues.size, ∀ side, (M.queue q).condition side < M.conditions.size
  named_mutex : ∀ name o m, M.object? name = some o → o.mutex? = some m → m < M.mutexes.size
  named_condition : ∀ name c, M.object? name = some (.condition c) → c < M.conditions.size
  named_queue : ∀ name q, M.object? name = some (.queue q) → q < M.queues.size

/-- A machine on which objects are still being made. -/
structure New (M : Machine α) : Prop where
  fresh : M.Fresh
  apart : M.Apart
  numbered : M.Numbered

variable {M M' : Machine α}

theorem object?_bind {name name' : String} {o o' : Object}
    (h : (M.bind name o).object? name' = some o') : M.object? name' = some o' ∨ o' = o := by
  unfold bind object? at h
  simp only [List.lookup_append] at h
  cases hn : M.names.lookup name' with
  | some known =>
      left
      simpa [object?, hn] using h
  | none =>
      right
      rw [hn, Option.none_or, List.lookup_cons] at h
      split at h
      · simpa using h.symm
      · simp at h

/-- A name for something that belongs to no queue. -/
theorem New.bind (h : M.New) (name : String) {o : Object}
    (hmutex : ∀ m, o.mutex? = some m →
      m < M.mutexes.size ∧ ∀ q < M.queues.size, (M.queue q).mutex ≠ m)
    (hcondition : ∀ c, o = .condition c →
      c < M.conditions.size ∧ ∀ q < M.queues.size, ∀ side, (M.queue q).condition side ≠ c)
    (hqueue : ∀ q, o = .queue q → q < M.queues.size) : (M.bind name o).New := by
  obtain ⟨hfresh, hapart, hnumbered⟩ := h
  refine ⟨⟨hfresh.ready, hfresh.idle, hfresh.parkedOn, hfresh.owner, hfresh.waiters,
    hfresh.notified, hfresh.log⟩, ⟨hapart.mutex_inj, hapart.condition_inj, ?_, ?_, ?_⟩,
    ⟨hnumbered.mutex_lt, hnumbered.condition_lt, ?_, ?_, ?_⟩⟩
  · intro name' o' m ho' hm
    rcases object?_bind ho' with ho' | rfl
    · exact hapart.mutex_ne name' o' m ho' hm
    · exact (hmutex m hm).2
  · intro name' c ho'
    rcases object?_bind ho' with ho' | heq
    · exact hapart.condition_ne name' c ho'
    · exact (hcondition c heq.symm).2
  · intro name' q ho'
    rcases object?_bind ho' with ho' | heq
    · exact hapart.queue_lt name' q ho'
    · exact hqueue q heq.symm
  · intro name' o' m ho' hm
    rcases object?_bind ho' with ho' | rfl
    · exact hnumbered.named_mutex name' o' m ho' hm
    · exact (hmutex m hm).1
  · intro name' c ho'
    rcases object?_bind ho' with ho' | heq
    · exact hnumbered.named_condition name' c ho'
    · exact (hcondition c heq.symm).1
  · intro name' q ho'
    rcases object?_bind ho' with ho' | heq
    · exact hnumbered.named_queue name' q ho'
    · exact hqueue q heq.symm

/-- A name for something that is neither a lock nor a condition variable nor a queue. -/
theorem New.bind_other (h : M.New) (name : String) {o : Object} (hmutex : o.mutex? = none)
    (hcondition : ∀ c, o ≠ .condition c) (hqueue : ∀ q, o ≠ .queue q) : (M.bind name o).New :=
  h.bind name (by simp [hmutex]) (fun c hc => absurd hc (hcondition c))
    (fun q hq => absurd hq (hqueue q))

theorem New.ofTasks (names : List String) : (ofTasks names : Machine α).New := by
  have hget : ∀ {β : Type} [Inhabited β] (i : Nat),
      (⟨names.map fun _ => default⟩ : Table β).get i = default := by
    intro β _ i
    simp only [Table.get, List.getD_eq_getElem?_getD, List.getElem?_map]
    cases names[i]? <;> rfl
  refine ⟨⟨rfl, ?_, ?_, fun _ => rfl, ?_, ?_, rfl⟩, ⟨?_, ?_, ?_, ?_, ?_⟩, ⟨?_, ?_, ?_, ?_, ?_⟩⟩
  · intro u
    have hthread : (Machine.ofTasks names : Machine α).thread u = default := hget u
    simp only [IsIdle, hthread]
    exact ⟨rfl, rfl⟩
  · intro s
    cases s with
    | raw r => rfl
    | handle h => exact congrArg Handle.parked (hget h)
  · intro p; cases p <;> rfl
  · intro h; exact congrArg Handle.notified (hget h)
  all_goals simp [Machine.ofTasks, object?, Table.size]

/-! ### New objects -/

theorem New.addMutex (h : M.New) (config : Config) : (M.addMutex config).1.New := by
  obtain ⟨hfresh, hapart, hnumbered⟩ := h
  have hget : ∀ m, ((M.addMutex config).1.mutex m) =
      if m = M.mutexes.size then ⟨none, .empty config⟩ else M.mutex m := fun m =>
    Table.get_add ..
  have hsize : (M.addMutex config).1.mutexes.size = M.mutexes.size + 1 := Table.size_add ..
  refine ⟨⟨hfresh.ready, hfresh.idle, hfresh.parkedOn, ?_, ?_, hfresh.notified, hfresh.log⟩,
    ⟨hapart.mutex_inj, hapart.condition_inj, hapart.mutex_ne, hapart.condition_ne,
      hapart.queue_lt⟩, ⟨?_, hnumbered.condition_lt, ?_, hnumbered.named_condition,
      hnumbered.named_queue⟩⟩
  · intro m
    rw [hget]
    split
    · rfl
    · exact hfresh.owner m
  · intro p
    cases p with
    | condition c => exact hfresh.waiters (.condition c)
    | mutex m =>
        show (((M.addMutex config).1.mutex m).waiting).toList = []
        rw [hget]
        split
        · rfl
        · exact hfresh.waiters (.mutex m)
  · intro q hq
    rw [hsize]
    exact Nat.lt_succ_of_lt (hnumbered.mutex_lt q hq)
  · intro name o m ho hm
    rw [hsize]
    exact Nat.lt_succ_of_lt (hnumbered.named_mutex name o m ho hm)

theorem New.addCondition (h : M.New) (config : Config) : (M.addCondition config).1.New := by
  obtain ⟨hfresh, hapart, hnumbered⟩ := h
  have hsize : (M.addCondition config).1.conditions.size = M.conditions.size + 1 :=
    Table.size_add ..
  refine ⟨⟨hfresh.ready, hfresh.idle, hfresh.parkedOn, hfresh.owner, ?_, hfresh.notified,
      hfresh.log⟩,
    ⟨hapart.mutex_inj, hapart.condition_inj, hapart.mutex_ne, hapart.condition_ne,
      hapart.queue_lt⟩, ⟨hnumbered.mutex_lt, ?_, hnumbered.named_mutex, ?_,
      hnumbered.named_queue⟩⟩
  · intro p
    cases p with
    | mutex m => exact hfresh.waiters (.mutex m)
    | condition c =>
        have hget : (M.addCondition config).1.waiters (.condition c) =
            if c = M.conditions.size then .empty config else M.waiters (.condition c) :=
          Table.get_add ..
        rw [hget]
        split
        · rfl
        · exact hfresh.waiters (.condition c)
  · intro q hq side
    rw [hsize]
    exact Nat.lt_succ_of_lt (hnumbered.condition_lt q hq side)
  · intro name c ho
    rw [hsize]
    exact Nat.lt_succ_of_lt (hnumbered.named_condition name c ho)

/-- A queue whose parts belong to nobody else. -/
theorem New.withQueue (h : M.New) {s : Queue α} (hm : s.mutex < M.mutexes.size)
    (hc : ∀ side, s.condition side < M.conditions.size)
    (hsides : s.valueAvailable ≠ s.spaceAvailable)
    (hmutex : ∀ q < M.queues.size, (M.queue q).mutex ≠ s.mutex)
    (hcondition : ∀ q < M.queues.size, ∀ side side', (M.queue q).condition side ≠ s.condition side')
    (hnamed : ∀ name o m, M.object? name = some o → o.mutex? = some m → s.mutex ≠ m)
    (hnamed' : ∀ name c, M.object? name = some (.condition c) → ∀ side, s.condition side ≠ c) :
    ({ M with queues := M.queues.add s } : Machine α).New := by
  obtain ⟨hfresh, hapart, hnumbered⟩ := h
  let N : Machine α := { M with queues := M.queues.add s }
  have hsize : N.queues.size = M.queues.size + 1 := Table.size_add ..
  have hlast : N.queue M.queues.size = s := Table.get_add_self ..
  have hold : ∀ q < M.queues.size, N.queue q = M.queue q := fun q hq => Table.get_add_of_lt _ _ hq
  have hcases : ∀ q < N.queues.size, q < M.queues.size ∨ q = M.queues.size := by
    intro q hq
    omega
  have hside : ∀ side side', s.condition side = s.condition side' → side = side' := by
    intro side side' heq
    cases side <;> cases side' <;>
      first | rfl | exact absurd heq hsides | exact absurd heq.symm hsides
  refine ⟨⟨hfresh.ready, hfresh.idle, hfresh.parkedOn, hfresh.owner, hfresh.waiters,
    hfresh.notified, hfresh.log⟩, ⟨?_, ?_, ?_, ?_, ?_⟩, ⟨?_, ?_, hnumbered.named_mutex,
    hnumbered.named_condition, ?_⟩⟩
  · intro q hq q' hq' heq
    change (N.queue q).mutex = (N.queue q').mutex at heq
    rcases hcases q hq with hlt | rfl <;> rcases hcases q' hq' with hlt' | rfl
    · rw [hold q hlt, hold q' hlt'] at heq
      exact hapart.mutex_inj q hlt q' hlt' heq
    · rw [hold q hlt, hlast] at heq
      exact absurd heq (hmutex q hlt)
    · rw [hold q' hlt', hlast] at heq
      exact absurd heq.symm (hmutex q' hlt')
    · rfl
  · intro q hq q' hq' side side' heq
    change (N.queue q).condition side = (N.queue q').condition side' at heq
    rcases hcases q hq with hlt | rfl <;> rcases hcases q' hq' with hlt' | rfl
    · rw [hold q hlt, hold q' hlt'] at heq
      exact hapart.condition_inj q hlt q' hlt' side side' heq
    · rw [hold q hlt, hlast] at heq
      exact absurd heq (hcondition q hlt side side')
    · rw [hold q' hlt', hlast] at heq
      exact absurd heq.symm (hcondition q' hlt' side' side)
    · rw [hlast] at heq
      exact ⟨rfl, hside side side' heq⟩
  · intro name o m ho hm' q hq
    change (N.queue q).mutex ≠ m
    rcases hcases q hq with hlt | rfl
    · rw [hold q hlt]
      exact hapart.mutex_ne name o m ho hm' q hlt
    · rw [hlast]
      exact hnamed name o m ho hm'
  · intro name c ho q hq side
    change (N.queue q).condition side ≠ c
    rcases hcases q hq with hlt | rfl
    · rw [hold q hlt]
      exact hapart.condition_ne name c ho q hlt side
    · rw [hlast]
      exact hnamed' name c ho side
  · intro name q ho
    exact Nat.lt_of_lt_of_eq (Nat.lt_succ_of_lt (hapart.queue_lt name q ho)) hsize.symm
  · intro q hq
    change (N.queue q).mutex < _
    rcases hcases q hq with hlt | rfl
    · rw [hold q hlt]
      exact hnumbered.mutex_lt q hlt
    · rwa [hlast]
  · intro q hq side
    change (N.queue q).condition side < _
    rcases hcases q hq with hlt | rfl
    · rw [hold q hlt]
      exact hnumbered.condition_lt q hlt side
    · rw [hlast]
      exact hc side
  · intro name q ho
    exact Nat.lt_of_lt_of_eq (Nat.lt_succ_of_lt (hnumbered.named_queue name q ho)) hsize.symm

theorem New.addQueue (h : M.New) (config : Config) (r : Record α) :
    (M.addQueue config r).1.New := by
  have hnew := ((h.addMutex config).addCondition config).addCondition config
  have hfirst : ((M.addMutex config).1.addCondition config).2 = M.conditions.size := rfl
  have hsecond : (((M.addMutex config).1.addCondition config).1.addCondition config).2 =
      M.conditions.size + 1 := Table.size_add ..
  have hsize :
      (((M.addMutex config).1.addCondition config).1.addCondition config).1.conditions.size =
        M.conditions.size + 1 + 1 := by
    rw [← hsecond]
    exact Table.size_add ..
  refine hnew.withQueue ?_ ?_ ?_ ?_ ?_ ?_ ?_
  · exact Nat.lt_of_lt_of_eq (Nat.lt_succ_self _) (Table.size_add ..).symm
  · intro side
    rw [hsize]
    cases side with
    | take => exact Nat.lt_of_le_of_lt (Nat.le_of_eq hfirst) (by omega)
    | add => exact Nat.lt_of_le_of_lt (Nat.le_of_eq hsecond) (by omega)
  · exact fun heq =>
      absurd (hfirst.symm.trans (Eq.trans heq hsecond)) (Nat.ne_of_lt (Nat.lt_succ_self _))
  · intro q hq
    exact Nat.ne_of_lt (h.numbered.mutex_lt q hq)
  · intro q hq side side' heq
    have hlt := h.numbered.condition_lt q hq side
    cases side' with
    | take => exact Nat.lt_irrefl _ (Nat.lt_of_lt_of_eq hlt (hfirst.symm.trans (Eq.symm heq)))
    | add =>
        exact Nat.lt_irrefl _ (Nat.lt_of_lt_of_eq (Nat.lt_succ_of_lt hlt)
          (hsecond.symm.trans (Eq.symm heq)))
  · intro name o m ho hm
    exact Ne.symm (Nat.ne_of_lt (h.numbered.named_mutex name o m ho hm))
  · intro name c ho side heq
    have hlt := h.numbered.named_condition name c ho
    cases side with
    | take => exact Nat.lt_irrefl _ (Nat.lt_of_lt_of_eq hlt (hfirst.symm.trans heq))
    | add =>
        exact Nat.lt_irrefl _ (Nat.lt_of_lt_of_eq (Nat.lt_succ_of_lt hlt) (hsecond.symm.trans heq))

theorem New.addRawLock (h : M.New) : M.addRawLock.1.New := by
  obtain ⟨hfresh, hapart, hnumbered⟩ := h
  refine ⟨⟨hfresh.ready, hfresh.idle, ?_, hfresh.owner, hfresh.waiters, hfresh.notified,
      hfresh.log⟩,
    ⟨hapart.mutex_inj, hapart.condition_inj, hapart.mutex_ne, hapart.condition_ne,
      hapart.queue_lt⟩, ⟨hnumbered.mutex_lt, hnumbered.condition_lt, hnumbered.named_mutex,
      hnumbered.named_condition, hnumbered.named_queue⟩⟩
  intro s
  cases s with
  | handle h => exact hfresh.parkedOn (.handle h)
  | raw r =>
      have hget : M.addRawLock.1.rawLock r = if r = M.rawLocks.size then {} else M.rawLock r :=
        Table.get_add ..
      simp only [parkedOn, hget]
      split
      · rfl
      · exact hfresh.parkedOn (.raw r)

theorem New.addHandle (h : M.New) (name : String) : (M.addHandle name).1.New := by
  obtain ⟨hfresh, hapart, hnumbered⟩ := h
  have hget : ∀ u, (M.addHandle name).1.handle u =
      if u = M.handles.size then {} else M.handle u := fun u => Table.get_add ..
  refine ⟨⟨hfresh.ready, hfresh.idle, ?_, hfresh.owner, hfresh.waiters, ?_, hfresh.log⟩,
    ⟨hapart.mutex_inj, hapart.condition_inj, hapart.mutex_ne, hapart.condition_ne,
      hapart.queue_lt⟩, ⟨hnumbered.mutex_lt, hnumbered.condition_lt, hnumbered.named_mutex,
      hnumbered.named_condition, hnumbered.named_queue⟩⟩
  · intro s
    cases s with
    | raw r => exact hfresh.parkedOn (.raw r)
    | handle u =>
        simp only [parkedOn, hget]
        split
        · rfl
        · exact hfresh.parkedOn (.handle u)
  · intro u
    rw [hget]
    split
    · rfl
    · exact hfresh.notified u

theorem New.addTaskList (h : M.New) (config : Config) : (M.addTaskList config).1.New := by
  obtain ⟨hfresh, hapart, hnumbered⟩ := h
  refine ⟨⟨hfresh.ready, hfresh.idle, fun s => ?_, hfresh.owner, fun p => ?_, hfresh.notified,
      hfresh.log⟩,
    ⟨hapart.mutex_inj, hapart.condition_inj, hapart.mutex_ne, hapart.condition_ne,
      hapart.queue_lt⟩, ⟨hnumbered.mutex_lt, hnumbered.condition_lt, hnumbered.named_mutex,
      hnumbered.named_condition, hnumbered.named_queue⟩⟩
  · cases s with
    | handle u => exact hfresh.parkedOn (.handle u)
    | raw r => exact hfresh.parkedOn (.raw r)
  · cases p with
    | mutex m => exact hfresh.waiters (.mutex m)
    | condition c => exact hfresh.waiters (.condition c)

/-- The number of a new mutex is nobody's. -/
theorem New.bind_mutex (h : M.New) (name : String) (config : Config) {o : Object}
    (ho : o.mutex? = some M.mutexes.size) (hcondition : ∀ c, o ≠ .condition c)
    (hqueue : ∀ q, o ≠ .queue q) : ((M.addMutex config).1.bind name o).New := by
  refine (h.addMutex config).bind name ?_ (fun c hc => absurd hc (hcondition c))
    (fun q hq => absurd hq (hqueue q))
  intro m hm
  obtain rfl := Option.some.inj (ho.symm.trans hm)
  exact ⟨Nat.lt_of_lt_of_eq (Nat.lt_succ_self _) (Table.size_add ..).symm,
    fun q hq => Nat.ne_of_lt (h.numbered.mutex_lt q hq)⟩

end Machine

namespace Machine

variable {M M' : Machine Json}

theorem New.make (h : M.New) {name : String} {spec : Spec} (hmake : M.make name spec = .ok M') :
    M'.New := by
  cases spec with
  | mutex config =>
      obtain rfl := Except.ok.inj hmake
      exact h.bind_mutex name config rfl (by simp) (by simp)
  | wrapped =>
      obtain rfl := Except.ok.inj hmake
      exact h.bind_mutex name {} rfl (by simp) (by simp)
  | minimal =>
      obtain rfl := Except.ok.inj hmake
      exact h.bind_mutex name {} rfl (by simp) (by simp)
  | condition config =>
      obtain rfl := Except.ok.inj hmake
      refine (h.addCondition config).bind name (by simp [Object.mutex?]) ?_ (by simp)
      rintro c ⟨⟩
      exact ⟨Nat.lt_of_lt_of_eq (Nat.lt_succ_self _) (Table.size_add ..).symm,
        fun q hq side => Nat.ne_of_lt (h.numbered.condition_lt q hq side)⟩
  | queue source =>
      simp only [Machine.make] at hmake
      cases hopen : source.open with
      | error e => simp [hopen, Functor.map, Except.map] at hmake
      | ok start =>
          obtain ⟨r, config⟩ := start
          simp only [hopen] at hmake
          obtain rfl := Except.ok.inj hmake
          refine (h.addQueue config r).bind name (by simp [Object.mutex?]) (by simp) ?_
          rintro q ⟨⟩
          exact Nat.lt_of_lt_of_eq (Nat.lt_succ_self _) (Table.size_add ..).symm
  | adapter =>
      obtain rfl := Except.ok.inj hmake
      exact h.addRawLock.bind_other name rfl (by simp) (by simp)
  | task =>
      obtain rfl := Except.ok.inj hmake
      exact (h.addHandle name).bind_other name rfl (by simp) (by simp)
  | tasks config =>
      obtain rfl := Except.ok.inj hmake
      exact (h.addTaskList config).bind_other name rfl (by simp) (by simp)

theorem New.makeAll (h : M.New) (specs : List (String × Spec)) : (M.makeAll specs).1.New := by
  induction specs generalizing M with
  | nil => exact h
  | cons entry specs ih =>
      obtain ⟨name, spec⟩ := entry
      unfold Machine.makeAll
      split
      · rename_i M' hmake
        exact ih (h.make hmake)
      · exact ih h

end Machine

/-- **The machine in which a scenario starts has queues with parts of their own, and nothing has
happened in it.** -/
theorem Scenario.start_new (s : Scenario) : s.start.1.New :=
  (Machine.New.ofTasks s.tasks).makeAll s.objects

end BlockingSync
