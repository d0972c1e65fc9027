/-
Operations on disguised mutexes.

An operation that a guise allows does the same with the mutex in the guise as with the
plain mutex.  So machines that are alike stay alike from one instruction to the next, as
long as disguised mutexes are used as mere locks, and nobody waits with a minimal one that
another task holds.
-/
import BlockingSync.Proofs.Likeness

namespace BlockingSync

variable {α : Type}

/-- Whether an operation on a mutex does not show in which guise the mutex is. -/
def Guise.allows : Guise → Verb α → Bool
  | .plain, _ => true
  | .wrapped, verb => verb.isInterface
  | .minimal, .isHeldByOther => false
  | .minimal, verb => verb.isInterface

/-- Whether an operation by itself, apart from those in its body, uses disguised mutexes as mere
locks. -/
def Op.heeds (guise : String → Guise) : Op α → Bool
  | .onObject name verb => (guise name).allows verb
  | .synchronize name _ | .guard name _ => guise name == .plain
  | _ => true

theorem Mutex.debug_congr {s s' : Mutex} (howner : s'.owner = s.owner)
    (hlength : s'.waiting.length = s.waiting.length) : s'.debug = s.debug := by
  unfold Mutex.debug
  rw [howner, hlength]

theorem debugCondition_congr {l l' : WaitList HandleId} (hlength : l'.length = l.length) :
    l'.debugCondition = l.debugCondition := by
  unfold WaitList.debugCondition
  rw [hlength]

theorem Queue.debug_congr {s s' : Queue α} (h : s.Alike s') : s'.debug = s.debug := by
  unfold Queue.debug
  rw [h.length, h.capacity]

theorem Queue.toRecord_congr {s s' : Queue α} (h : s.Alike s') : s'.toRecord = s.toRecord := by
  unfold Queue.toRecord
  rw [h.capacity, h.values]

namespace Machine

variable {g : MutexId → Guise} {k : Scrutiny α} {M M' : Machine α}

/-- The guise of the mutex that a name means. -/
def guiseOf (M : Machine α) (g : MutexId → Guise) (name : String) : Guise :=
  match M.object? name with
  | some (.mutex m) => g m
  | _ => .plain

/-- Whether an operation is a wait with a minimal mutex that another task holds. -/
def isIntrusion (M : Machine α) (guise : String → Guise) (t : ThreadId) : Op α → Bool
  | .onObject name (.wait lock) =>
    match M.object? name, M.object? lock with
    | some (.condition _), some (.mutex m) => guise lock == .minimal && isOther (M.mutex m).owner t
    | _, _ => false
  | _ => false

theorem performMutex_of_isInterface {verb : Verb α} (hv : verb.isInterface = true) (M : Machine α)
    (t : ThreadId) (path : Path) (m : MutexId) :
    M.performMutex t path m verb = M.performLockable t path (.native m) verb := by
  cases verb with
  | acquire | release | exclusiveRelease | isHeldByOther => rfl
  | _ => simp [Verb.isInterface] at hv

theorem Guise.isInterface_of_allows {guise : Guise} {verb : Verb α}
    (hallows : guise.allows verb = true) (hplain : guise ≠ .plain) : verb.isInterface = true := by
  cases guise with
  | plain => exact absurd rfl hplain
  | wrapped => exact hallows
  | minimal =>
      cases verb with
      | acquire | release | exclusiveRelease | isHeldByOther => rfl
      | _ => exact hallows

/-- An operation that a guise allows does the same with the lock in the guise. -/
theorem performLockable_lock {guise : Guise} {verb : Verb α} (h : guise.allows verb = true)
    (hplain : guise ≠ .plain) (M : Machine α) (t : ThreadId) (path : Path) (m : MutexId) :
    M.performLockable t path (guise.lock m) verb = M.performLockable t path (.native m) verb := by
  have hv := Guise.isInterface_of_allows h hplain
  cases guise with
  | plain => exact absurd rfl hplain
  | wrapped =>
      cases verb with
      | acquire | release | exclusiveRelease | isHeldByOther => rfl
      | _ => simp [Verb.isInterface] at hv
  | minimal =>
      cases verb with
      | acquire | release | exclusiveRelease => rfl
      | isHeldByOther => simp [Guise.allows] at h
      | _ => simp [Verb.isInterface] at hv

theorem AlikeWith.yieldReleased {r r' : Machine α × Release} (hr : AlikeWith g r r' k)
    (path : Path) (result : Bool → Result α) :
    AlikeWith g (r.1, yieldRelease path result r.2) (r'.1, yieldRelease path result r'.2) k :=
  ⟨hr.state, by rw [hr.result]⟩

theorem isFair_ofPanic (g : MutexId → Guise) (panic : Option String) :
    IsFair g (Action.ofPanic (α := α) panic) k :=
  fun _ _ h => .intro h

namespace Alike

/-! ### What is shown -/

theorem auditObject (h : Alike g M M' k) (o : Object) :
    M'.auditObject (o.veil g) = M.auditObject o := by
  have hmutex : ∀ m, M'.auditMutex m = M.auditMutex m := fun m => by
    simp only [auditMutex, h.survivors (h.waiters (.mutex m))]
  cases o with
  | mutex m =>
      simp only [Object.veil, Machine.auditObject, ← hmutex]
      cases g m <;> rfl
  | wrapped m | minimal m => exact hmutex m
  | condition c =>
      simp only [Object.veil, Machine.auditObject, auditCondition,
        h.survivors (h.waiters (.condition c))]
  | queue q =>
      have hq := h.queue q
      simp only [Object.veil, Machine.auditObject, auditQueue, hq.mutex, hq.valueAvailable,
        hq.spaceAvailable, h.survivors (h.waiters _)]
  | adapter | task | tasks => rfl

theorem view (h : Alike g M M' k) (o : Object) : M'.view (o.veil g) = M.view o := by
  have hlength : ∀ m, (M'.mutex m).waiting.length = (M.mutex m).waiting.length :=
    fun m => h.length_waiters (.mutex m)
  cases o with
  | mutex m =>
      simp only [Object.veil, Machine.view, ← h.owner, ← h.nameOf, ← hlength]
      cases g m <;> rfl
  | wrapped m | minimal m =>
      simp only [Object.veil, Machine.view, h.owner, h.nameOf, hlength]
  | condition c => simp only [Object.veil, Machine.view, h.length_waiters]
  | queue q =>
      have hq := h.queue q
      simp only [Object.veil, Machine.view, hq.capacity, hq.values, h.queueWaiting]
  | adapter r => simp only [Object.veil, Machine.view, h.rawLock]
  | task u => simp only [Object.veil, Machine.view, h.isResumable]
  | tasks l => simp only [Object.veil, Machine.view, h.taskLists, h.nameOf]

theorem views (h : Alike g M M' k) : M'.views = M.views := by
  unfold Machine.views
  rw [h.names, List.map_map]
  refine List.map_congr_left fun entry _ => ?_
  obtain ⟨name, o⟩ := entry
  cases o with
  | none => rfl
  | some o => simp only [Function.comp_apply, Option.map_some, h.view]

/-! ### Operations on locks -/

theorem performLockable (h : Alike g M M' k) (t : ThreadId) (path : Path) (l : Lockable)
    (verb : Verb α) :
    AlikeWith g (M.performLockable t path l verb) (M'.performLockable t path l verb) k := by
  cases verb with
  | release =>
      exact (h.exclusiveRelease l t (isFair_ofPanic g none)).yieldReleased path .flag
  | exclusiveRelease panic =>
      exact (h.exclusiveRelease l t (isFair_ofPanic g panic)).yieldReleased path
        fun b => .released b b.toNat
  | isHeldByOther =>
      simp only [Machine.performLockable, h.isHeldByOther]
      exact .intro h
  | _ => exact .intro h

theorem performMutex (h : Alike g M M' k) (t : ThreadId) (path : Path) (m : MutexId)
    (verb : Verb α) :
    AlikeWith g (M.performMutex t path m verb) (M'.performMutex t path m verb) k := by
  have hlength : (M'.mutex m).waiting.length = (M.mutex m).waiting.length :=
    h.length_waiters (.mutex m)
  cases verb with
  | tryLock =>
      obtain ⟨hstate, hresult⟩ := h.tryLock m t
      exact ⟨hstate, by simp only [Machine.performMutex, hresult]⟩
  | unlock => exact (h.unlock m).yieldReleased path .flag
  | exclusiveUnlock panic =>
      exact (h.releaseWith m (isFair_ofPanic g panic) true).yieldReleased path (.unlocked · true)
  | audit =>
      refine ⟨h, ?_⟩
      simp only [Machine.performMutex, auditMutex, h.survivors (h.waiters (.mutex m))]
  | debug =>
      refine ⟨h, ?_⟩
      simp only [Machine.performMutex, Mutex.debug_congr (h.owner m) hlength]
  | isLocked | isOwned | owner | numWaiting =>
      refine ⟨h, ?_⟩
      simp only [Machine.performMutex, h.owner, h.nameOf, hlength]
  | acquire | release | exclusiveRelease | isHeldByOther =>
      rw [performMutex_of_isInterface rfl, performMutex_of_isInterface rfl]
      exact h.performLockable t path (.native m) _
  | _ => exact .intro h

theorem performAdapter (h : Alike g M M' k) (t : ThreadId) (path : Path) (r : RawLockId)
    (verb : Verb α) :
    AlikeWith g (M.performAdapter t path r verb) (M'.performAdapter t path r verb) k := by
  cases verb with
  | tryAcquire =>
      obtain ⟨hstate, hresult⟩ := h.trySeize r t
      exact ⟨hstate, by simp only [Machine.performAdapter, hresult]⟩
  | isLocked | isHeldByCurrent | debug =>
      refine ⟨h, ?_⟩
      simp only [Machine.performAdapter, h.rawLock]
  | acquire => exact .intro h
  | release => exact h.performLockable t path (.raw r) .release
  | exclusiveRelease panic => exact h.performLockable t path (.raw r) (.exclusiveRelease panic)
  | isHeldByOther => exact h.performLockable t path (.raw r) .isHeldByOther
  | _ => exact .intro h

/-! ### Operations on condition variables and queues -/

theorem performWait (h : Alike g M M' k) (t : ThreadId) (path : Path) (c : ConditionId)
    (lock : String)
    (hown : ∀ m o, M.object? lock = some (.mutex m) → g m = .minimal →
      (M.mutex m).owner = some o → o = t) :
    AlikeWith g (M.performWait t path c lock) (M'.performWait t path c lock) k := by
  unfold Machine.performWait
  rw [h.object?]
  cases ho : M.object? lock with
  | none => exact .intro h
  | some o =>
      simp only [Option.map_some, lockable?_veil]
      cases hl : lockable? o with
      | none => exact .intro h
      | some l =>
          simp only [Option.map_some, acquire_veil]
          have hnative : ∀ m u, l = .native m → g m = .minimal →
              (M.mutex m).owner = some u → u = t := by
            rintro m u rfl hg howner
            refine hown m u ?_ hg howner
            cases o <;> simp [lockable?] at hl
            rw [hl] at ho
            exact ho
          obtain ⟨N, N', departure, hN, hN', hstate⟩ := (h.depart c hnative).parts
          rw [hN, hN']
          cases departure with
          | departed | unowned | notOwner => exact .intro hstate

theorem performCondition (h : Alike g M M' k) (t : ThreadId) (path : Path) (c : ConditionId)
    (verb : Verb α)
    (hown : ∀ lock m o, verb = .wait lock → M.object? lock = some (.mutex m) → g m = .minimal →
      (M.mutex m).owner = some o → o = t) :
    AlikeWith g (M.performCondition t path c verb) (M'.performCondition t path c verb) k := by
  cases verb with
  | wait lock => exact h.performWait t path c lock fun m o => hown lock m o rfl
  | signal => exact .intro (h.wakeOne _).state
  | broadcast => exact .intro (h.wakeAll _).state
  | audit =>
      refine ⟨h, ?_⟩
      simp only [Machine.performCondition, auditCondition, h.survivors (h.waiters (.condition c))]
  | numWaiting =>
      refine ⟨h, ?_⟩
      simp only [Machine.performCondition, h.length_waiters]
  | debug =>
      refine ⟨h, ?_⟩
      simp only [Machine.performCondition, debugCondition_congr (h.length_waiters (.condition c))]
  | _ => exact .intro h

theorem performQueue (h : Alike g M M' k) (path : Path) (q : QueueId) (verb : Verb α) :
    AlikeWith g (M.performQueue path q verb) (M'.performQueue path q verb) k := by
  have hq := h.queue q
  have haudit := h.auditObject (.queue q)
  have enter : ∀ tr : Transaction α, AlikeWith g
      (M, Next.goOn [.lock (M.queue q).mutex, .transact q path tr])
      (M', Next.goOn [.lock (M'.queue q).mutex, .transact q path tr]) k :=
    fun tr => ⟨h, by simp only [hq.mutex]⟩
  cases verb with
  | audit =>
      refine ⟨h, ?_⟩
      exact congrArg (yieldAudit path) haudit
  | debug =>
      refine ⟨h, ?_⟩
      exact congrArg (fun text => Next.yield path (.text text)) (Queue.debug_congr hq)
  | snapshot =>
      refine ⟨h, ?_⟩
      exact congrArg (fun record => Next.yield path (.record record)) (Queue.toRecord_congr hq)
  | setCapacity capacity =>
      obtain ⟨n, hn⟩ := capacity
      cases n with
      | zero => exact .intro h
      | succ n => exact enter _
  | popWith nonBlocking => cases nonBlocking <;> exact enter _
  | push | pop | shift | clear | isEmpty | length | size | numWaiting | capacity | values =>
      exact enter _
  | _ => exact .intro h

/-! ### Operations on tasks -/

theorem debugTask (h : Alike g M M' k) (u : HandleId) : M'.debugTask u = M.debugTask u := by
  unfold Machine.debugTask
  rw [h.isResumable]

theorem resume? (h : Alike g M M' k) (u : HandleId) :
    (M.resume? u = none ∧ M'.resume? u = none) ∨
      ∃ N N', M.resume? u = some N ∧ M'.resume? u = some N' ∧ Alike g N N' k := by
  cases live : M.isResumable u with
  | true =>
      have live' : M'.isResumable u = true := by rw [h.isResumable, live]
      exact .inr ⟨_, _, resume?_of_resumable u live, resume?_of_resumable u live', h.roused u⟩
  | false =>
      have dead' : M'.isResumable u = false := by rw [h.isResumable, live]
      exact .inl ⟨resume?_of_not_resumable u live, resume?_of_not_resumable u dead'⟩

theorem resumeEach (h : Alike g M M' k) (hs : List HandleId) :
    AlikeWith g (M.resumeEach hs) (M'.resumeEach hs) k := by
  induction hs generalizing M M' with
  | nil => exact .intro h
  | cons u hs ih =>
      unfold Machine.resumeEach
      rcases h.resume? u with ⟨hnone, hnone'⟩ | ⟨N, N', hsome, hsome', hN⟩
      · have hrest := ih h
        simp only [hnone, hnone', h.nameOf, hrest.result]
        exact .intro hrest.state
      · have hrest := ih hN
        simp only [hsome, hsome', h.nameOf, hrest.result]
        exact .intro hrest.state

/-- A list of tasks answers the same, but for the number of its free cells. -/
theorem performTasks (h : Alike g M M' k) (t : ThreadId) (path : Path) (l : TaskListId)
    {verb : Verb α}
    (hcount : verb = .pooled → k = .full ∨ k.passesOver (M.thread t).step path = true) :
    AlikeNext g k t (M.performTasks path l verb) (M'.performTasks path l verb) := by
  have htasks := h.taskLists l
  have hfull : ∀ f : WaitList HandleId → WaitList HandleId,
      k = .full → f (M'.taskLists.get l) = f (M.taskLists.get l) := fun f hk => by
    rw [h.storage hk]
  cases verb with
  | pooled =>
      refine ⟨h, ?_⟩
      rcases hcount rfl with hk | hover
      · simp only [Machine.performTasks, h.storage hk]
      · exact congrArg (fun r => Next.goOn [.report path r]) (Scrutiny.seen_count hover _ _)
  | shift =>
      refine AlikeWith.next ?_ t
      unfold Machine.performTasks
      rcases shift? htasks with ⟨hnone, hnone'⟩ | ⟨u, rest, rest', hs, hs', hrest⟩
      · simp only [hnone, hnone']
        exact .intro h
      · simp only [hs, hs', h.nameOf]
        refine .intro (h.setTasks l hrest fun hk => ?_)
        rw [h.storage hk, hs] at hs'
        exact (Prod.mk.inj (Option.some.inj hs')).2.symm
  | clear =>
      refine AlikeWith.next (.intro (h.setTasks l ?_ (hfull WaitList.clear))) t
      rw [WaitList.toList_clear, WaitList.toList_clear]
  | length =>
      refine AlikeWith.next ⟨h, ?_⟩ t
      simp only [Machine.performTasks, h.length_tasks]
  | survivors =>
      refine AlikeWith.next ⟨h, ?_⟩ t
      simp only [Machine.performTasks, h.survivors htasks]
  | drainResume limit =>
      refine AlikeWith.next ?_ t
      have htaken : ∀ count, ((M'.taskLists.get l).drain count).1 =
          ((M.taskLists.get l).drain count).1 := by simp [htasks]
      have hleft : ∀ count, ((M'.taskLists.get l).drain count).2.toList =
          ((M.taskLists.get l).drain count).2.toList := by simp [htasks]
      have hrest := fun count =>
        (h.setTasks l (hleft count) (hfull fun tasks => (tasks.drain count).2)).resumeEach
          ((M.taskLists.get l).drain count).1
      simp only [Machine.performTasks, h.length_tasks, htaken, (hrest _).result]
      exact .intro (hrest _).state
  | _ => exact (AlikeWith.intro h).next t

theorem performTask (h : Alike g M M' k) (t : ThreadId) (path : Path) (u : HandleId)
    (verb : TaskVerb) :
    AlikeWith g (M.performTask t path u verb) (M'.performTask t path u verb) k := by
  cases verb with
  | resume =>
      unfold Machine.performTask
      rcases h.resume? u with ⟨hnone, hnone'⟩ | ⟨N, N', hsome, hsome', hN⟩
      · simp only [hnone, hnone']
        exact .intro h
      · simp only [hsome, hsome']
        exact .intro hN
  | terminate =>
      simp only [Machine.performTask, h.handle]
      exact .intro (h.setHandle u _)
  | isResumable =>
      refine ⟨h, ?_⟩
      simp only [Machine.performTask, h.isResumable]
  | debug =>
      refine ⟨h, ?_⟩
      simp only [Machine.performTask, h.debugTask]
  | isSame other =>
      simp only [Machine.performTask, h.handle?]
      split <;> exact .intro h
  | pushTo list times =>
      simp only [Machine.performTask, h.object?]
      cases M.object? list with
      | none => exact .intro h
      | some o =>
          cases o with
          | tasks l =>
              refine .intro (h.setTasks l ?_ fun hk => by rw [h.storage hk])
              simp only [WaitList.toList_append, h.taskLists]
          | mutex m =>
              simp only [Option.map_some, Object.veil]
              cases g m <;> exact .intro h
          | _ => exact .intro h
  | _ => exact .intro h

/-! ### All operations -/

/-- A mutex in a guise does what the plain mutex does, if the guise allows it. -/
theorem performVeiled (h : Alike g M M' k) (t : ThreadId) (path : Path) {m : MutexId}
    {verb : Verb α} (hallows : (g m).allows verb = true) :
    AlikeWith g (M.performMutex t path m verb)
      (M'.performObject t path ((g m).object m) verb) k := by
  by_cases hplain : g m = .plain
  · rw [hplain]
    exact h.performMutex t path m verb
  · have hobject : M'.performObject t path ((g m).object m) verb =
        M'.performLockable t path ((g m).lock m) verb := by
      cases hg : g m with
      | plain => exact absurd hg hplain
      | wrapped | minimal => rfl
    rw [performMutex_of_isInterface (Guise.isInterface_of_allows hallows hplain), hobject,
      performLockable_lock hallows hplain]
    exact h.performLockable t path _ verb

theorem performObject (h : Alike g M M' k) (t : ThreadId) (path : Path) {o : Object}
    {verb : Verb α} (hallows : ∀ m, o = .mutex m → (g m).allows verb = true)
    (hown : ∀ c lock m u, o = .condition c → verb = .wait lock →
      M.object? lock = some (.mutex m) → g m = .minimal → (M.mutex m).owner = some u → u = t)
    (hcount : verb = .pooled → k = .full ∨ k.passesOver (M.thread t).step path = true) :
    AlikeNext g k t (M.performObject t path o verb)
      (M'.performObject t path (o.veil g) verb) := by
  cases o with
  | mutex m => exact (h.performVeiled t path (hallows m rfl)).next t
  | condition c =>
      exact (h.performCondition t path c verb fun lock m u => hown c lock m u rfl).next t
  | queue q => exact (h.performQueue path q verb).next t
  | adapter r => exact (h.performAdapter t path r verb).next t
  | wrapped m | minimal m => exact (h.performLockable t path _ verb).next t
  | task u => exact (AlikeWith.intro h).next t
  | tasks l => exact h.performTasks t path l hcount

theorem guiseOf_of_mutex {name : String} {m : MutexId} (ho : M.object? name = some (.mutex m)) :
    M.guiseOf g name = g m := by
  simp only [guiseOf, ho]

/-- Bodies run only with mutexes that show themselves. -/
theorem object?_of_plain (h : Alike g M M' k) {name : String} (hplain : M.guiseOf g name = .plain) :
    M'.object? name = M.object? name := by
  rw [h.object?]
  cases ho : M.object? name with
  | none => rfl
  | some o =>
      cases o with
      | mutex m =>
          rw [guiseOf_of_mutex ho] at hplain
          simp only [Option.map_some, Object.veil, hplain, Guise.object]
      | _ => rfl

/-- **An operation that uses disguised mutexes as mere locks does the same in machines that are
alike.** -/
theorem perform (h : Alike g M M' k) (t : ThreadId) (path : Path) {op : Op α}
    (heeds : op.heeds (M.guiseOf g) = true)
    (hown : M.isIntrusion (M.guiseOf g) t op = false)
    (hknows : k.Knows (M.thread t).step path op) :
    AlikeNext g k t (M.perform t path op) (M'.perform t path op) := by
  cases op with
  | panic message => exact (AlikeWith.intro h).next t
  | drop name =>
      unfold Machine.perform
      simp only [h.object?]
      cases M.object? name with
      | none => exact (AlikeWith.intro h).next t
      | some o =>
          simp only [Option.map_some, h.auditObject]
          exact (AlikeWith.intro (h.forget name)).next t
  | onTask handle verb =>
      unfold Machine.perform
      simp only [h.handle?]
      split
      · exact (AlikeWith.intro h).next t
      · exact (h.performTask t path _ verb).next t
  | onObject name verb =>
      unfold Machine.perform
      simp only [h.object?]
      cases ho : M.object? name with
      | none => exact (AlikeWith.intro h).next t
      | some o =>
          simp only [Option.map_some]
          refine h.performObject t path ?_ ?_ ?_
          · rintro m rfl
            simpa only [Op.heeds, guiseOf_of_mutex ho] using heeds
          · rintro c lock m u rfl rfl hlock hg howner
            simpa [isIntrusion, ho, hlock, guiseOf_of_mutex hlock, hg, isOther, howner] using hown
          · rintro rfl
            exact hknows.passesOver rfl
  | synchronize name body | guard name body =>
      have hplain : M.guiseOf g name = .plain := by simpa [Op.heeds] using heeds
      unfold Machine.perform
      simp only [h.object?_of_plain hplain]
      split <;> exact (AlikeWith.intro h).next t

/-- Any instruction but the beginning of an operation does the same in machines that are alike. -/
theorem execute_same (h : Alike g M M' k) (t : ThreadId) {i : Instr α}
    (hi : ∀ path op, i ≠ .start path op) :
    AlikeWith g (M.execute t i) (M'.execute t i) k := by
  cases i with
  | start path op => exact absurd rfl (hi path op)
  | lock m =>
      obtain ⟨N, N', locked, hN, hN', hstate⟩ := (h.tryLock m t).parts
      simp only [Machine.execute, hN, hN']
      cases locked with
      | true => exact .intro hstate
      | false => exact .intro (hstate.enqueue _ t)
  | unlock m => exact .intro (h.unlock m).state
  | closeGuard m path =>
      refine ⟨h, ?_⟩
      simp only [Machine.execute, h.owner]
  | seize r =>
      obtain ⟨N, N', seized, hN, hN', hstate⟩ := (h.trySeize r t).parts
      simp only [Machine.execute, hN, hN']
      cases seized with
      | true => exact .intro hstate
      | false =>
          dsimp only
          rw [hstate.rawLock]
          exact .intro (hstate.setRawLock r _)
  | suspend u place =>
      simp only [Machine.execute, h.handle]
      split
      · exact .intro (h.setHandle u _)
      · exact .intro (h.setHandle u _)
  | transact q path tr => exact h.transact t q path tr
  | report path r =>
      simp only [Machine.execute, h.step]
      exact .intro (h.note rfl)

/-- **Instructions that look the same do the same in machines that are alike.** -/
theorem execute (h : Alike g M M' k) (t : ThreadId) {i i' : Instr α}
    (hi : i'.seen k (M.thread t).step = i.seen k (M.thread t).step)
    (hstart : ∀ path op, i = .start path op →
      op.heeds (M.guiseOf g) = true ∧ M.isIntrusion (M.guiseOf g) t op = false ∧
        k.Knows (M.thread t).step path op) :
    AlikeNext g k t (M.execute t i) (M'.execute t i') := by
  rcases Instr.eq_of_seen hi with rfl | ⟨path, r, r', rfl, rfl, hr⟩
  · cases i' with
    | start path op =>
        obtain ⟨heeds, hown, hknows⟩ := hstart path op rfl
        exact h.perform t path heeds hown hknows
    | _ => exact (h.execute_same t (by simp)).next t
  · refine ⟨h.note ?_, rfl⟩
    simp only [Entry.seen, h.step, hr]

end Alike

end Machine

end BlockingSync
