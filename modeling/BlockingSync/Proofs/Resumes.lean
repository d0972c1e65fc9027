/-
Whom an instruction resumes.

For every instruction it is said outright which tasks it resumes, those that are resumed
more than once as often as they are, and in which order; only tasks that can be resumed
are among them.  What the instruction does to the handles is then exactly to resume these
one after the other (`handles_execute`), but for two instructions: a suspension takes or
awaits a token, and a termination marks its handle.

The functions below follow those that perform operations, one for each.
-/
import BlockingSync.Proofs.Custody
import BlockingSync.Proofs.Tenure

namespace BlockingSync

variable {α : Type}

/-- A handle is resumed: it has a token, and the thread that parked on it first is unparked. -/
def rouse (handles : Table Handle) (h : HandleId) : Table Handle :=
  handles.set h { handles.get h with notified := true, parked := (handles.get h).parked.tail }

/-- Handles are resumed in order. -/
def rouseAll (handles : Table Handle) (hs : List HandleId) : Table Handle :=
  hs.foldl rouse handles

namespace Machine

/-! ### Who is resumed -/

/-- Those of some tasks that can be resumed. -/
def live (M : Machine α) (hs : List HandleId) : List HandleId :=
  hs.filter M.isResumable

/-- The waiters of a place that so many wakes resume, each of them one. -/
def woken (M : Machine α) (p : Place) (count : Nat) : List HandleId :=
  (M.live (M.waiters p).toList).take count

/-- The waiter that the release of a mutex resumes. -/
def freed (M : Machine α) (m : MutexId) : List HandleId :=
  if (M.mutex m).owner.isSome then M.woken (.mutex m) 1 else []

/-- The waiter that the release of a lock resumes; a raw lock knows nothing of tasks. -/
def released (M : Machine α) (l : Lockable) : List HandleId :=
  match l.mutex? with
  | some m => M.freed m
  | none => []

/-- By an operation of the interface of locks. -/
def resumedByLockable (M : Machine α) (l : Lockable) : Verb α → List HandleId
  | .release | .exclusiveRelease _ => M.released l
  | _ => []

/-- By an operation on a mutex. -/
def resumedByMutex (M : Machine α) (m : MutexId) (verb : Verb α) : List HandleId :=
  match verb with
  | .unlock | .exclusiveUnlock _ => M.freed m
  | verb => M.resumedByLockable (.native m) verb

/-- By a wait, which gives up the lock if the task departs. -/
def resumedByWait (M : Machine α) (t : ThreadId) (c : ConditionId) (lock : String) :
    List HandleId :=
  match (M.object? lock).bind lockable? with
  | some l => if (M.depart c l t).2 = .departed then M.released l else []
  | none => []

/-- By an operation on a condition variable. -/
def resumedByCondition (M : Machine α) (t : ThreadId) (c : ConditionId) : Verb α → List HandleId
  | .wait lock => M.resumedByWait t c lock
  | .signal => M.woken (.condition c) 1
  | .broadcast => M.live (M.waiters (.condition c)).toList
  | _ => []

/-- By an operation on a plain list of tasks. -/
def resumedByTasks (M : Machine α) (l : TaskListId) : Verb α → List HandleId
  | .drainResume limit =>
    let tasks := (M.taskLists.get l).toList
    M.live (tasks.take (limit.getD tasks.length))
  | _ => []

/-- By an operation on an object.  What a queue does it does in its transactions. -/
def resumedByObject (M : Machine α) (t : ThreadId) (object : Object) (verb : Verb α) :
    List HandleId :=
  match object with
  | .mutex m => M.resumedByMutex m verb
  | .condition c => M.resumedByCondition t c verb
  | .adapter r => M.resumedByLockable (.raw r) verb
  | .wrapped m => M.resumedByLockable (.wrapped m) verb
  | .minimal m => M.resumedByLockable (.minimal m) verb
  | .tasks l => M.resumedByTasks l verb
  | .queue _ | .task _ => []

/-- By an operation on a task handle. -/
def resumedByTask (M : Machine α) (h : HandleId) : TaskVerb → List HandleId
  | .resume => M.live [h]
  | _ => []

/-- By an operation that begins. -/
def resumedByOp (M : Machine α) (t : ThreadId) : Op α → List HandleId
  | .onTask handle verb =>
    match M.handle? handle with
    | some h => M.resumedByTask h verb
    | none => []
  | .onObject name verb =>
    match M.object? name with
    | some object => M.resumedByObject t object verb
    | none => []
  | _ => []

/-- By a transaction that has to wait, and gives up the mutex of the queue. -/
def resumedByWaiting (M : Machine α) (t : ThreadId) (s : Queue α) : List HandleId :=
  if (M.mutex s.mutex).owner = some t then M.woken (.mutex s.mutex) 1 else []

/-- By a transaction that takes a value. -/
def resumedByTaking (M : Machine α) (t : ThreadId) (s : Queue α) : List HandleId :=
  match s.values.shift? with
  | none => M.resumedByWaiting t s
  | some (_, values) =>
    if { s with values }.hasSpace then M.woken (.condition s.spaceAvailable) 1 else []

/-- By a transaction. -/
def resumedByTransaction (M : Machine α) (t : ThreadId) (s : Queue α) :
    Transaction α → List HandleId
  | .add _ =>
    if s.isFull then M.resumedByWaiting t s else M.woken (.condition s.valueAvailable) 1
  | .take => M.resumedByTaking t s
  | .tryTake => if s.values.isEmpty then [] else M.resumedByTaking t s
  | .clear => M.woken (.condition s.spaceAvailable) 1
  | .resize capacity => M.woken (.condition s.spaceAvailable) (s.addedSlots capacity)
  | _ => []

/-- By an instruction. -/
def resumedBy (M : Machine α) (t : ThreadId) : Instr α → List HandleId
  | .start _ op => M.resumedByOp t op
  | .unlock m => M.freed m
  | .transact q _ transaction => M.resumedByTransaction t (M.queue q) transaction
  | _ => []

variable {M N : Machine α} {t : ThreadId} {p : Place}

/-! ### Only tasks that can be resumed -/

/-- Whether all of some tasks can be resumed. -/
def AllLive (M : Machine α) (hs : List HandleId) : Prop :=
  ∀ h ∈ hs, M.isResumable h = true

theorem allLive_nil : M.AllLive [] := by
  intro h hh
  simp at hh

theorem allLive_live (hs : List HandleId) : M.AllLive (M.live hs) :=
  fun _ hh => (List.mem_filter.1 hh).2

theorem allLive_woken (p : Place) (count : Nat) : M.AllLive (M.woken p count) :=
  fun h hh => allLive_live _ h (List.mem_of_mem_take hh)

theorem allLive_freed (m : MutexId) : M.AllLive (M.freed m) := by
  unfold freed
  split
  · exact allLive_woken _ _
  · exact allLive_nil

theorem allLive_released (l : Lockable) : M.AllLive (M.released l) := by
  unfold released
  split
  · exact allLive_freed _
  · exact allLive_nil

theorem allLive_lockable (l : Lockable) (verb : Verb α) :
    M.AllLive (M.resumedByLockable l verb) := by
  unfold resumedByLockable
  split
  · exact allLive_released l
  · exact allLive_released l
  · exact allLive_nil

theorem allLive_mutex (m : MutexId) (verb : Verb α) : M.AllLive (M.resumedByMutex m verb) := by
  unfold resumedByMutex
  split
  · exact allLive_freed m
  · exact allLive_freed m
  · exact allLive_lockable _ _

theorem allLive_wait (t : ThreadId) (c : ConditionId) (lock : String) :
    M.AllLive (M.resumedByWait t c lock) := by
  unfold resumedByWait
  split
  · split
    · exact allLive_released _
    · exact allLive_nil
  · exact allLive_nil

theorem allLive_condition (t : ThreadId) (c : ConditionId) (verb : Verb α) :
    M.AllLive (M.resumedByCondition t c verb) := by
  unfold resumedByCondition
  split
  · exact allLive_wait t c _
  · exact allLive_woken _ _
  · exact allLive_live _
  · exact allLive_nil

theorem allLive_tasks (l : TaskListId) (verb : Verb α) :
    M.AllLive (M.resumedByTasks l verb) := by
  unfold resumedByTasks
  split
  · exact allLive_live _
  · exact allLive_nil

theorem allLive_op (t : ThreadId) (op : Op α) : M.AllLive (M.resumedByOp t op) := by
  unfold resumedByOp
  split
  · split
    · unfold resumedByTask
      split
      · exact allLive_live _
      · exact allLive_nil
    · exact allLive_nil
  · split
    · unfold resumedByObject
      split
      · exact allLive_mutex _ _
      · exact allLive_condition t _ _
      · exact allLive_lockable _ _
      · exact allLive_lockable _ _
      · exact allLive_lockable _ _
      · exact allLive_tasks _ _
      · exact allLive_nil
      · exact allLive_nil
    · exact allLive_nil
  · exact allLive_nil

theorem allLive_waiting (t : ThreadId) (s : Queue α) : M.AllLive (M.resumedByWaiting t s) := by
  unfold resumedByWaiting
  split
  · exact allLive_woken _ _
  · exact allLive_nil

theorem allLive_taking (t : ThreadId) (s : Queue α) : M.AllLive (M.resumedByTaking t s) := by
  unfold resumedByTaking
  split
  · exact allLive_waiting t s
  · split
    · exact allLive_woken _ _
    · exact allLive_nil

theorem allLive_transaction (t : ThreadId) (s : Queue α) (tr : Transaction α) :
    M.AllLive (M.resumedByTransaction t s tr) := by
  unfold resumedByTransaction
  split
  · split
    · exact allLive_waiting t s
    · exact allLive_woken _ _
  · exact allLive_taking t s
  · split
    · exact allLive_nil
    · exact allLive_taking t s
  · exact allLive_woken _ _
  · exact allLive_woken _ _
  · exact allLive_nil

/-- Nobody is resumed who has terminated. -/
theorem allLive_resumedBy (t : ThreadId) (i : Instr α) : M.AllLive (M.resumedBy t i) := by
  unfold resumedBy
  split
  · exact allLive_op t _
  · exact allLive_freed _
  · exact allLive_transaction t _ _
  · exact allLive_nil

/-! ### Handles that are resumed -/

@[simp] theorem rouseAll_nil (handles : Table Handle) : rouseAll handles [] = handles :=
  rfl

@[simp] theorem rouseAll_append (handles : Table Handle) (hs hs' : List HandleId) :
    rouseAll handles (hs ++ hs') = rouseAll (rouseAll handles hs) hs' :=
  List.foldl_append

/-- Whoever is resumed has a token, and nobody loses one. -/
theorem notified_rouseAll (handles : Table Handle) (hs : List HandleId) (h : HandleId) :
    ((rouseAll handles hs).get h).notified = ((handles.get h).notified || hs.contains h) := by
  induction hs generalizing handles with
  | nil => simp
  | cons u hs ih =>
      show ((rouseAll (rouse handles u) hs).get h).notified = _
      rw [ih, rouse, Table.get_set]
      by_cases hu : u = h
      · subst hu
        simp
      · have hne : (h == u) = false := by simpa using Ne.symm hu
        rw [if_neg hu, List.contains_cons, hne, Bool.false_or]

/-! ### Wakes -/

theorem live_congr (hlive : N.isResumable = M.isResumable) (hs : List HandleId) :
    N.live hs = M.live hs := by
  rw [live, live, hlive]

theorem woken_congr (hlive : N.isResumable = M.isResumable)
    (hwaiters : N.waiters p = M.waiters p) (count : Nat) : N.woken p count = M.woken p count := by
  rw [woken, woken, hwaiters, live_congr hlive]

theorem isResumable_tryResume (h : HandleId) : (M.tryResume h).1.isResumable = M.isResumable := by
  funext u
  cases live : M.isResumable h with
  | true => rw [tryResume_of_resumable live, isResumable_roused]
  | false => rw [tryResume_of_not_resumable live, isResumable_note]

theorem handles_tryResume (h : HandleId) :
    (M.tryResume h).1.handles = rouseAll M.handles (M.live [h]) := by
  cases live : M.isResumable h with
  | true =>
      rw [tryResume_of_resumable live, Machine.live, List.filter_cons_of_pos live]
      rfl
  | false =>
      rw [tryResume_of_not_resumable live, Machine.live, List.filter_cons_of_neg (by simp [live])]
      rfl

/-- The threads that resuming some tasks makes ready. -/
def unparked (M : Machine α) (hs : List HandleId) : List ThreadId :=
  hs.flatMap fun h => (M.handle h).parked.take 1

/-- The lines about the waiters that a wake passes over. -/
def skips (M : Machine α) (p : Place) : List (Entry α) :=
  ((M.waiters p).toList.takeWhile fun h => !M.isResumable h).map .skipped

/-- What a wake does to each part of the state: it takes out the waiters up to the first that can
be resumed, resumes that one, and leaves a line about each of the others. -/
structure Awakens (p : Place) (M M' : Machine α) : Prop where
  waiters : (M'.waiters p).toList = M.afterFirst (M.waiters p).toList
  elsewhere : ∀ p', p' ≠ p → M'.waiters p' = M.waiters p'
  owner : ∀ m, (M'.mutex m).owner = (M.mutex m).owner
  handles : M'.handles = rouseAll M.handles (M.woken p 1)
  ready : M'.ready = M.ready ++ M.unparked (M.woken p 1)
  log : M'.log = M.log ++ M.skips p
  threads : M'.threads = M.threads
  queues : M'.queues = M.queues
  rawLocks : M'.rawLocks = M.rawLocks
  taskLists : M'.taskLists = M.taskLists
  names : M'.names = M.names
  handleNames : M'.handleNames = M.handleNames

namespace Awakens

variable {M' : Machine α}

theorem nobody (hnil : (M.waiters p).toList = []) : Awakens p M M where
  waiters := by simp [hnil, afterFirst]
  elsewhere _ _ := rfl
  owner _ := rfl
  handles := by simp [woken, live, hnil]
  ready := by simp [woken, live, hnil, unparked]
  log := by simp [skips, hnil]
  threads := rfl
  queues := rfl
  rawLocks := rfl
  taskLists := rfl
  names := rfl
  handleNames := rfl

theorem found {h : HandleId} {rest : WaitList HandleId}
    (hs : (M.waiters p).toList = h :: rest.toList) (hlive : M.isResumable h = true) :
    Awakens p M ((M.setWaiters p rest).roused h) := by
  have hwoken : M.woken p 1 = [h] := by simp [woken, live, hs, hlive]
  exact
    { waiters := by simp [hs, hlive, afterFirst]
      elsewhere := fun p' hp => by rw [waiters_roused, waiters_setWaiters, if_neg (Ne.symm hp)]
      owner := fun m => owner_setWaiters p rest m
      handles := by simp [hwoken, roused, rouseAll, rouse, handle]
      ready := by simp [hwoken, roused, unparked]
      log := by simp [roused, skips, hs, hlive]
      threads := threads_setWaiters p rest
      queues := queues_setWaiters p rest
      rawLocks := rawLocks_setWaiters p rest
      taskLists := taskLists_setWaiters p rest
      names := names_setWaiters p rest
      handleNames := handleNames_setWaiters p rest }

/-- A wake that goes on behind a waiter who cannot be resumed. -/
theorem passed {h : HandleId} {rest : WaitList HandleId}
    (hs : (M.waiters p).toList = h :: rest.toList) (dead : M.isResumable h = false)
    (hw : Awakens p ((M.setWaiters p rest).note (.skipped h)) M') : Awakens p M M' := by
  have hwoken : ((M.setWaiters p rest).note (.skipped h)).woken p 1 = M.woken p 1 := by
    simp only [woken, live, isResumable_passed, waiters_note, waiters_setWaiters_self, hs]
    rw [List.filter_cons_of_neg (by simp [dead])]
  have hunparked : ((M.setWaiters p rest).note (.skipped h)).unparked = M.unparked := by
    funext hs
    simp only [unparked, handle_note, handle_setWaiters]
  exact
    { waiters := by
        rw [hw.waiters, waiters_note, waiters_setWaiters_self, hs, afterFirst, afterFirst,
          isResumable_passed, List.dropWhile_cons_of_pos (by simp [dead])]
      elsewhere := fun p' hp => by
        rw [hw.elsewhere p' hp, waiters_note, waiters_setWaiters, if_neg (Ne.symm hp)]
      owner := fun m => (hw.owner m).trans (owner_setWaiters p rest m)
      handles := by
        rw [hw.handles, hwoken]
        exact congrArg (rouseAll · _) (handles_setWaiters p rest)
      ready := by
        rw [hw.ready, hwoken, hunparked]
        exact congrArg (· ++ _) (ready_setWaiters p rest)
      log := by
        rw [hw.log, skips, skips, isResumable_passed, waiters_note, waiters_setWaiters_self, hs,
          List.takeWhile_cons_of_pos (by simp [dead])]
        simp [Machine.note]
      threads := hw.threads.trans (threads_setWaiters p rest)
      queues := hw.queues.trans (queues_setWaiters p rest)
      rawLocks := hw.rawLocks.trans (rawLocks_setWaiters p rest)
      taskLists := hw.taskLists.trans (taskLists_setWaiters p rest)
      names := hw.names.trans (names_setWaiters p rest)
      handleNames := hw.handleNames.trans (handleNames_setWaiters p rest) }

end Awakens

theorem wakeOne_awakens (M : Machine α) (p : Place) : Awakens p M (M.wakeOne p).1 :=
  wakeOne_induct (C := fun M M' => Awakens p M M'.1) (fun _ => .nobody) (fun _ _ _ => .found)
    (fun _ _ _ _ hs dead hw => hw.passed hs dead) M

/-- A wake resumes the earliest waiter that can be resumed. -/
theorem handles_wakeOne (M : Machine α) (p : Place) :
    (M.wakeOne p).1.handles = rouseAll M.handles (M.woken p 1) :=
  (wakeOne_awakens M p).handles

/-- Up to the first that can be resumed there is nobody else who can. -/
theorem live_afterFirst (M : Machine α) (hs : List HandleId) :
    M.live (M.afterFirst hs) = (M.live hs).tail := by
  unfold afterFirst live
  induction hs with
  | nil => rfl
  | cons h hs ih =>
      cases hh : M.isResumable h with
      | true => simp [hh]
      | false => simpa [hh] using ih

/-- A wake leaves all that can be resumed but the first. -/
theorem live_wakeOne (M : Machine α) (p : Place) :
    (M.wakeOne p).1.live ((M.wakeOne p).1.waiters p).toList =
      (M.live (M.waiters p).toList).tail := by
  rw [waiters_wakeOne, live_congr (wakeOne_wakes 0 M p).isResumable, live_afterFirst]

/-- What the next wakes resume. -/
theorem woken_wakeOne (M : Machine α) (p : Place) (count : Nat) :
    M.woken p (count + 1) = M.woken p 1 ++ (M.wakeOne p).1.woken p count := by
  rw [woken, woken, woken, live_wakeOne]
  cases M.live (M.waiters p).toList <;> simp

/-- Wakes leave all that can be resumed but as many as there are wakes. -/
theorem live_wakeTimes (p : Place) (count : Nat) (M : Machine α) :
    (wakeTimes p count M).live ((wakeTimes p count M).waiters p).toList =
      (M.live (M.waiters p).toList).drop count := by
  induction count generalizing M with
  | zero => rfl
  | succ count ih =>
      refine (ih (M.wakeOne p).1).trans ?_
      rw [live_wakeOne, List.drop_tail]

theorem handles_wakeTimes (p : Place) (count : Nat) (M : Machine α) :
    (wakeTimes p count M).handles = rouseAll M.handles (M.woken p count) := by
  induction count generalizing M with
  | zero => simp [wakeTimes, woken]
  | succ count ih =>
      rw [woken_wakeOne, rouseAll_append, ← handles_wakeOne]
      exact ih _

theorem handles_wakeMany (M : Machine α) (p : Place) (count : Nat) :
    (M.wakeMany p count).handles = rouseAll M.handles (M.woken p count) := by
  have hlength : (M.live (M.waiters p).toList).length ≤ (M.waiters p).length := by
    rw [← WaitList.length_toList]
    exact List.length_filter_le _ _
  have henough : M.woken p (min count (M.waiters p).length) = M.woken p count := by
    unfold woken
    rcases Nat.le_total count (M.waiters p).length with hle | hle
    · rw [Nat.min_eq_left hle]
    · rw [Nat.min_eq_right hle, List.take_of_length_le hlength,
        List.take_of_length_le (Nat.le_trans hlength hle)]
  rw [wakeMany, handles_wakeTimes, henough]

theorem handles_resumeAll (M : Machine α) (hs : List HandleId) :
    (M.resumeAll hs).1.handles = rouseAll M.handles (M.live hs) := by
  induction hs generalizing M with
  | nil => rfl
  | cons h hs ih =>
      show ((M.tryResume h).1.resumeAll hs).1.handles = _
      rw [ih, handles_tryResume, live_congr (isResumable_tryResume h), ← rouseAll_append]
      unfold live
      rw [← List.filter_append, List.singleton_append]

theorem handles_wakeAll (M : Machine α) (p : Place) :
    (M.wakeAll p).1.handles = rouseAll M.handles (M.live (M.waiters p).toList) := by
  show ((M.setWaiters p (M.waiters p).drainAll.2).resumeAll (M.waiters p).drainAll.1).1.handles = _
  have hlive : (M.setWaiters p (M.waiters p).drainAll.2).isResumable = M.isResumable :=
    funext fun u => isResumable_setWaiters ..
  rw [handles_resumeAll, WaitList.drainAll_fst, live_congr hlive, handles_setWaiters]

theorem handles_resumeEach (M : Machine α) (hs : List HandleId) :
    (M.resumeEach hs).1.handles = rouseAll M.handles (M.live hs) := by
  induction hs generalizing M with
  | nil => rfl
  | cons h hs ih =>
      unfold resumeEach live
      cases hlive : M.isResumable h with
      | true =>
          simp only [resume?_of_resumable h hlive]
          rw [ih, live_congr (funext fun u => isResumable_roused h u),
            List.filter_cons_of_pos hlive]
          rfl
      | false =>
          simp only [resume?_of_not_resumable h hlive]
          rw [ih, List.filter_cons_of_neg (by simp [hlive])]
          rfl

/-! ### Locks -/

theorem handles_unlockRaw (r : RawLockId) : (M.unlockRaw r).handles = M.handles := by
  unfold unlockRaw
  simp only
  split <;> rfl

theorem handles_releaseRaw (r : RawLockId) (panic : Option String) :
    (M.releaseRaw r t (.ofPanic panic)).1.handles = M.handles := by
  unfold releaseRaw
  split
  · cases panic with
    | none => exact handles_unlockRaw r
    | some message => rfl
  · rfl

theorem handles_trySeize (r : RawLockId) : (M.trySeize r t).1.handles = M.handles := by
  unfold trySeize
  simp only
  split <;> rfl

theorem handles_tryLock (m : MutexId) : (M.tryLock m t).1.handles = M.handles := by
  unfold tryLock
  split <;> rfl

/-- A machine in which a place has the same waiters wakes the same. -/
theorem handles_wakeOne_congr (hhandles : N.handles = M.handles)
    (hwaiters : N.waiters p = M.waiters p) :
    (N.wakeOne p).1.handles = rouseAll M.handles (M.woken p 1) := by
  have hlive : N.isResumable = M.isResumable := by
    funext u
    simp only [isResumable, handle, hhandles]
  rw [handles_wakeOne, woken_congr hlive hwaiters, hhandles]

theorem handles_free (m : MutexId) :
    (M.free m).handles = rouseAll M.handles (M.woken (.mutex m) 1) :=
  handles_wakeOne_congr rfl (waiters_setOwner m none _)

theorem handles_leave (c : ConditionId) (m : MutexId) :
    (M.leave c m t).handles = rouseAll M.handles (M.woken (.mutex m) 1) := by
  refine handles_wakeOne_congr rfl ?_
  rw [enqueue, waiters_setWaiters, if_neg (by simp), waiters_setOwner]

theorem handles_releaseWith (m : MutexId) (panic : Option String) (runWhenFree : Bool) :
    (M.releaseWith m (.ofPanic panic) runWhenFree).1.handles =
      rouseAll M.handles (M.freed m) := by
  cases ho : (M.mutex m).owner with
  | none =>
      rw [releaseWith_of_free ho]
      simp [freed, ho]
  | some o =>
      rw [releaseWith_of_owned ho, handles_free]
      simp [freed, ho]

theorem handles_exclusiveRelease (l : Lockable) (panic : Option String) :
    (M.exclusiveRelease l t (.ofPanic panic)).1.handles =
      rouseAll M.handles (M.released l) := by
  cases l with
  | native m | wrapped m | minimal m => exact handles_releaseWith m panic false
  | raw r => exact handles_releaseRaw r panic

/-! ### Operations -/

variable {path : Path}

theorem handles_performLockable (l : Lockable) (verb : Verb α) :
    (M.performLockable t path l verb).1.handles =
      rouseAll M.handles (M.resumedByLockable l verb) := by
  cases verb with
  | release => exact handles_exclusiveRelease l none
  | exclusiveRelease panic => exact handles_exclusiveRelease l panic
  | _ => rfl

theorem handles_performMutex (m : MutexId) (verb : Verb α) :
    (M.performMutex t path m verb).1.handles =
      rouseAll M.handles (M.resumedByMutex m verb) := by
  cases verb with
  | unlock => exact handles_releaseWith m none false
  | exclusiveUnlock panic => exact handles_releaseWith m panic true
  | tryLock => exact handles_tryLock m
  | lock | isLocked | isOwned | owner | numWaiting | audit | debug | json => rfl
  | _ => exact handles_performLockable (.native m) _

theorem handles_performAdapter (r : RawLockId) (verb : Verb α) :
    (M.performAdapter t path r verb).1.handles =
      rouseAll M.handles (M.resumedByLockable (.raw r) verb) := by
  cases verb with
  | tryAcquire => exact handles_trySeize r
  | isLocked | isHeldByCurrent | debug => rfl
  | _ => exact handles_performLockable (.raw r) _

/-- A task that departs resumes whom the release of the lock resumes. -/
theorem handles_depart {c : ConditionId} {l : Lockable} (hd : (M.depart c l t).2 = .departed) :
    (M.depart c l t).1.handles = rouseAll M.handles (M.released l) := by
  rcases depart_of_departed hd with ⟨m, hm, ⟨o, ho⟩, heq⟩ | ⟨r, rfl, hraw⟩
  · rw [heq, handles_leave]
    simp [released, hm, freed, ho]
  · have hsame : (M.depart c (.raw r) t).1.handles = (M.enqueue (.condition c) t).handles := by
      refine hraw.keeps (I := fun N => N.handles = (M.enqueue (.condition c) t).handles) ?_ rfl
      intro e N N' he hc hN
      subst he
      cases hc <;> exact hN
    rw [hsame]
    rfl

theorem handles_performWait (c : ConditionId) (lock : String) :
    (M.performWait t path c lock).1.handles =
      rouseAll M.handles (M.resumedByWait t c lock) := by
  cases ho : M.object? lock with
  | none => simp only [performWait, resumedByWait, ho, Option.bind_none, rouseAll_nil]
  | some o =>
      cases hl : lockable? o with
      | none => simp only [performWait, resumedByWait, ho, hl, Option.bind_some, rouseAll_nil]
      | some l =>
          have hperform : (M.performWait t path c lock).1 = (M.depart c l t).1 := by
            simp only [performWait, ho, hl]
            split <;> simp_all
          simp only [hperform, resumedByWait, ho, hl, Option.bind_some]
          split
          · rename_i hd
            exact handles_depart hd
          · rename_i hd
            rw [depart_of_not_departed hd, rouseAll_nil]

theorem handles_performCondition (c : ConditionId) (verb : Verb α) :
    (M.performCondition t path c verb).1.handles =
      rouseAll M.handles (M.resumedByCondition t c verb) := by
  cases verb with
  | wait lock => exact handles_performWait c lock
  | signal => exact handles_wakeOne M (.condition c)
  | broadcast => exact handles_wakeAll M (.condition c)
  | _ => rfl

theorem handles_performTasks (l : TaskListId) (verb : Verb α) :
    (M.performTasks path l verb).1.handles =
      rouseAll M.handles (M.resumedByTasks l verb) := by
  cases verb with
  | shift =>
      simp only [performTasks]
      split <;> rfl
  | drainResume limit =>
      simp only [performTasks, resumedByTasks]
      rw [handles_resumeEach, WaitList.drain_fst, WaitList.length_toList]
      rfl
  | _ => rfl

theorem handles_performObject (o : Object) (verb : Verb α) :
    (M.performObject t path o verb).1.handles =
      rouseAll M.handles (M.resumedByObject t o verb) := by
  cases o with
  | mutex m => exact handles_performMutex m verb
  | condition c => exact handles_performCondition c verb
  | queue q => exact congrArg (·.handles) (performQueue_fst path q verb)
  | adapter r => exact handles_performAdapter r verb
  | wrapped m => exact handles_performLockable (.wrapped m) verb
  | minimal m => exact handles_performLockable (.minimal m) verb
  | task h => rfl
  | tasks l => exact handles_performTasks l verb

theorem handles_performTask (h : HandleId) {verb : TaskVerb} (hverb : verb ≠ .terminate) :
    (M.performTask t path h verb).1.handles =
      rouseAll M.handles (M.resumedByTask h verb) := by
  cases verb with
  | terminate => exact absurd rfl hverb
  | resume =>
      unfold performTask
      cases hlive : M.isResumable h with
      | true =>
          simp only [resume?_of_resumable h hlive, resumedByTask, live,
            List.filter_cons_of_pos hlive]
          rfl
      | false =>
          simp only [resume?_of_not_resumable h hlive, resumedByTask, live]
          rw [List.filter_cons_of_neg (by simp [hlive])]
          rfl
  | isSame other | pushTo list times =>
      unfold performTask
      simp only
      split <;> rfl
  | _ => rfl

/-- An operation resumes tasks, and does no more to the handles unless it is a termination. -/
theorem handles_perform {op : Op α} (hop : ∀ handle, op ≠ .onTask handle .terminate) :
    (M.perform t path op).1.handles = rouseAll M.handles (M.resumedByOp t op) := by
  cases op with
  | onTask handle verb =>
      simp only [perform, resumedByOp]
      cases M.handle? handle with
      | none => rfl
      | some h => exact handles_performTask h fun hverb => hop handle (by rw [hverb])
  | onObject name verb =>
      simp only [perform, resumedByOp]
      cases M.object? name with
      | none => rfl
      | some o => exact handles_performObject o verb
  | drop name | synchronize name body | guard name body =>
      simp only [perform]
      split <;> rfl
  | panic message => rfl

/-! ### Transactions -/

theorem handles_waitHeld (s : Queue α) (c : ConditionId) (again : Instr α) :
    (M.waitHeld t s c again).1.handles = rouseAll M.handles (M.resumedByWaiting t s) := by
  by_cases ho : (M.mutex s.mutex).owner = some t
  · rw [waitHeld_eq ho, resumedByWaiting, if_pos ho]
    exact handles_leave c s.mutex
  · have hsame : (M.departNative c s.mutex t).1 = M := by
      refine depart_of_not_departed (l := .native s.mutex) fun hd => ?_
      rcases owner_of_departed rfl hd with howner | hmin
      · exact ho howner
      · cases hmin
    rw [resumedByWaiting, if_neg ho, rouseAll_nil]
    unfold waitHeld
    split <;> simp_all

theorem handles_takeValue (q : QueueId) :
    (M.takeValue t q path).1.handles = rouseAll M.handles (M.resumedByTaking t (M.queue q)) := by
  cases hs : (M.queue q).values.shift? with
  | none =>
      simp only [takeValue, resumedByTaking, hs]
      exact handles_waitHeld _ _ _
  | some entry =>
      simp only [takeValue, resumedByTaking, hs]
      split
      · exact handles_wakeOne_congr rfl rfl
      · rfl

/-- What a transaction does to the handles is to resume tasks. -/
theorem handles_transact (q : QueueId) (tr : Transaction α) :
    (M.transact t q path tr).1.handles =
      rouseAll M.handles (M.resumedByTransaction t (M.queue q) tr) := by
  cases tr with
  | add v =>
      simp only [transact, addValue, resumedByTransaction]
      split
      · exact handles_waitHeld _ _ _
      · exact handles_wakeOne_congr rfl rfl
  | take => exact handles_takeValue q
  | tryTake =>
      simp only [transact, resumedByTransaction]
      split
      · rfl
      · exact handles_takeValue q
  | clear => exact handles_wakeOne_congr rfl rfl
  | resize capacity => exact handles_wakeMany _ _ _
  | _ => rfl

/-! ### All instructions -/

/-- **What an instruction does to the handles is to resume tasks**, unless it is a suspension or
begins a termination. -/
theorem handles_execute {i : Instr α} (hsuspend : ∀ h w, i ≠ .suspend h w)
    (hstart : ∀ path handle, i ≠ .start path (.onTask handle .terminate)) :
    (M.execute t i).1.handles = rouseAll M.handles (M.resumedBy t i) := by
  cases i with
  | suspend h w => exact absurd rfl (hsuspend h w)
  | start path op => exact handles_perform fun handle hop => hstart path handle (by rw [hop])
  | lock m =>
      cases ho : (M.mutex m).owner with
      | none =>
          simp only [execute, tryLock, ho]
          rfl
      | some o =>
          simp only [execute, tryLock, ho]
          rfl
  | unlock m => exact handles_releaseWith m none false
  | seize r =>
      cases hr : (M.rawLock r).locked with
      | false =>
          simp only [execute, trySeize, hr, Bool.false_eq_true, if_false]
          rfl
      | true =>
          simp only [execute, trySeize, hr, if_true]
          rfl
  | transact q path tr => exact handles_transact q tr
  | closeGuard m path | report path r => rfl

end Machine

end BlockingSync
