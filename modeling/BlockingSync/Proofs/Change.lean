/-
What an instruction can do to the state.

An instruction changes the state by a few small changes, one after the other.  A
`Change` is one of them, labelled by its `Effect`; each part of the state is changed
under its own labels and by no other change.  So a property of the machine is kept by
every instruction once it is kept by every change with a label that matters to it.

No change touches the threads or takes anybody out of the ready ones.
-/
import BlockingSync.Machine.Schedule

namespace BlockingSync

/-- What a change is about. -/
inductive Effect where
  /-- A mutex gets another owner, or none. -/
  | own (m : MutexId) (owner : Option HandleId)
  /-- The running thread puts its handle on a list. -/
  | enter (p : Place)
  /-- The earliest entry of a list is taken out, and its task resumed if that is possible; or the
  list is stored anew with the same entries. -/
  | wake (p : Place)
  /-- A task is resumed, whatever list it is on. -/
  | resume (h : HandleId)
  | raw (r : RawLockId)
  /-- The values or the bound of a queue change. -/
  | refill (q : QueueId)
  | tasks
  | forget (name : String)
  | terminate (h : HandleId)
  /-- A line of the log that reports no operation. -/
  | note

/-- Whether a line of the log reports that an operation has finished. -/
def Entry.isFinished {α : Type} : Entry α → Bool
  | .finished .. => true
  | _ => false

namespace Machine

variable {α : Type} {M M' : Machine α} {t : ThreadId}

/-- The state after a task was resumed that has not terminated. -/
def roused (M : Machine α) (h : HandleId) : Machine α :=
  { M with
    handles := M.handles.set h
      { M.handle h with notified := true, parked := (M.handle h).parked.tail }
    ready := M.ready ++ (M.handle h).parked.take 1 }

theorem resume?_of_resumable (h : HandleId) (live : M.isResumable h = true) :
    M.resume? h = some (M.roused h) := by
  have hterm : (M.handle h).terminated = false := by simpa [isResumable] using live
  unfold resume?
  rcases hs : M.handle h with ⟨notified, terminated, parked⟩
  simp only [hs] at hterm
  subst hterm
  cases parked with
  | nil => simp [roused, setHandle, hs]
  | cons u parked => simp [roused, setHandle, makeReady, hs]

theorem resume?_of_not_resumable (h : HandleId) (dead : M.isResumable h = false) :
    M.resume? h = none := by
  have hterm : (M.handle h).terminated = true := by simpa [isResumable] using dead
  simp [resume?, hterm]

/-- One change of the state, while `t` is the thread that runs. -/
inductive Change (t : ThreadId) (M : Machine α) : Effect → Machine α → Prop
  | own (m : MutexId) (o : Option HandleId) : Change t M (.own m o) (M.setOwner m o)
  | enter (p : Place) : Change t M (.enter p) (M.enqueue p t)
  | relist {p : Place} {l : WaitList HandleId} (hs : (M.waiters p).toList = l.toList) :
      Change t M (.wake p) (M.setWaiters p l)
  | skip {p : Place} {h : HandleId} {rest : WaitList HandleId}
      (hs : (M.waiters p).toList = h :: rest.toList) (dead : M.isResumable h = false) :
      Change t M (.wake p) ((M.setWaiters p rest).note (.skipped h))
  | rouse {p : Place} {h : HandleId} {rest : WaitList HandleId}
      (hs : (M.waiters p).toList = h :: rest.toList) (live : M.isResumable h = true) :
      Change t M (.wake p) ((M.setWaiters p rest).roused h)
  | resume (h : HandleId) : Change t M (.resume h) (M.roused h)
  | adapt {r : RawLockId} {s : RawLock} (hs : s.parked = (M.rawLock r).parked) :
      Change t M (.raw r) (M.setRawLock r s)
  | unpark {r : RawLockId} {s : RawLock} {u : ThreadId}
      (hs : (M.rawLock r).parked = u :: s.parked) :
      Change t M (.raw r) ((M.setRawLock r s).makeReady u)
  | refill {q : QueueId} {s : Queue α} (hq : q < M.queues.size)
      (mutex : s.mutex = (M.queue q).mutex)
      (value : s.valueAvailable = (M.queue q).valueAvailable)
      (space : s.spaceAvailable = (M.queue q).spaceAvailable) :
      Change t M (.refill q) (M.setQueue q s)
  | tasks (lists : Table (WaitList HandleId)) : Change t M .tasks { M with taskLists := lists }
  | forget (name : String) : Change t M (.forget name) (M.forget name)
  | terminate (h : HandleId) :
      Change t M (.terminate h) (M.setHandle h { M.handle h with terminated := true })
  | note {e : Entry α} (he : e.isFinished = false) : Change t M .note (M.note e)

/-- Changes in a row, all of them with labels that are allowed. -/
inductive Changes (allowed : Effect → Prop) (t : ThreadId) (M : Machine α) : Machine α → Prop
  | refl : Changes allowed t M M
  | step {N N' : Machine α} {e : Effect} (before : Changes allowed t M N) (he : allowed e)
      (last : Change t N e N') : Changes allowed t M N'

namespace Changes

variable {allowed allowed' : Effect → Prop}

theorem single {e : Effect} (he : allowed e) (h : Change t M e M') : Changes allowed t M M' :=
  .step .refl he h

theorem trans {M'' : Machine α} (h : Changes allowed t M M') (h' : Changes allowed t M' M'') :
    Changes allowed t M M'' := by
  induction h' with
  | refl => exact h
  | step _ he last ih => exact .step ih he last

theorem mono (h : Changes allowed t M M') (himp : ∀ e, allowed e → allowed' e) :
    Changes allowed' t M M' := by
  induction h with
  | refl => exact .refl
  | step _ he last ih => exact .step ih (himp _ he) last

/-- What every allowed change keeps, a row of them keeps. -/
theorem keeps {I : Machine α → Prop} (h : Changes allowed t M M')
    (hstep : ∀ e N N', allowed e → Change t N e N' → I N → I N') (hI : I M) : I M' := by
  induction h with
  | refl => exact hI
  | step _ he last ih => exact hstep _ _ _ he last ih

end Changes

/-! ### What a change leaves alone -/

theorem waiters_setWaiters (p p' : Place) (l : WaitList HandleId) :
    (M.setWaiters p l).waiters p' = if p = p' then l else M.waiters p' := by
  cases p <;> cases p' <;>
    simp only [setWaiters, setMutex, waiters, mutex, Table.get_set, Place.mutex.injEq,
      Place.condition.injEq, reduceCtorEq, if_false]
  split <;> rfl

@[simp] theorem waiters_setWaiters_self (p : Place) (l : WaitList HandleId) :
    (M.setWaiters p l).waiters p = l := by
  simp [waiters_setWaiters]

theorem mutex_setMutex (m m' : MutexId) (s : Mutex) :
    (M.setMutex m s).mutex m' = if m = m' then s else M.mutex m' := by
  simp only [setMutex, mutex, Table.get_set]

theorem owner_setWaiters (p : Place) (l : WaitList HandleId) (m : MutexId) :
    ((M.setWaiters p l).mutex m).owner = (M.mutex m).owner := by
  cases p with
  | condition c => rfl
  | mutex m' =>
      simp only [setWaiters, mutex_setMutex]
      split
      · subst m'; rfl
      · rfl

@[simp] theorem handles_setWaiters (p : Place) (l : WaitList HandleId) :
    (M.setWaiters p l).handles = M.handles := by
  cases p <;> rfl

@[simp] theorem handle_setWaiters (p : Place) (l : WaitList HandleId) (h : HandleId) :
    (M.setWaiters p l).handle h = M.handle h := by
  cases p <;> rfl

@[simp] theorem isResumable_setWaiters (p : Place) (l : WaitList HandleId) (h : HandleId) :
    (M.setWaiters p l).isResumable h = M.isResumable h := by
  cases p <;> rfl

@[simp] theorem threads_setWaiters (p : Place) (l : WaitList HandleId) :
    (M.setWaiters p l).threads = M.threads := by
  cases p <;> rfl

@[simp] theorem ready_setWaiters (p : Place) (l : WaitList HandleId) :
    (M.setWaiters p l).ready = M.ready := by
  cases p <;> rfl

@[simp] theorem log_setWaiters (p : Place) (l : WaitList HandleId) :
    (M.setWaiters p l).log = M.log := by
  cases p <;> rfl

@[simp] theorem queues_setWaiters (p : Place) (l : WaitList HandleId) :
    (M.setWaiters p l).queues = M.queues := by
  cases p <;> rfl

@[simp] theorem rawLocks_setWaiters (p : Place) (l : WaitList HandleId) :
    (M.setWaiters p l).rawLocks = M.rawLocks := by
  cases p <;> rfl

@[simp] theorem taskLists_setWaiters (p : Place) (l : WaitList HandleId) :
    (M.setWaiters p l).taskLists = M.taskLists := by
  cases p <;> rfl

@[simp] theorem names_setWaiters (p : Place) (l : WaitList HandleId) :
    (M.setWaiters p l).names = M.names := by
  cases p <;> rfl

@[simp] theorem handleNames_setWaiters (p : Place) (l : WaitList HandleId) :
    (M.setWaiters p l).handleNames = M.handleNames := by
  cases p <;> rfl

theorem mutex_setOwner (m m' : MutexId) (o : Option HandleId) :
    (M.setOwner m o).mutex m' = if m = m' then { M.mutex m with owner := o } else M.mutex m' := by
  exact mutex_setMutex m m' _

@[simp] theorem waiters_setOwner (m : MutexId) (o : Option HandleId) (p : Place) :
    (M.setOwner m o).waiters p = M.waiters p := by
  cases p with
  | condition c => rfl
  | mutex m' =>
      simp only [waiters, mutex_setOwner]
      split
      · subst m'; rfl
      · rfl

theorem handle_setHandle (h h' : HandleId) (s : Handle) :
    (M.setHandle h s).handle h' = if h = h' then s else M.handle h' := by
  simp only [setHandle, handle, Table.get_set]

theorem handle_setHandle_ne {h h' : HandleId} (hne : h' ≠ h) (s : Handle) :
    (M.setHandle h s).handle h' = M.handle h' := by
  rw [handle_setHandle, if_neg (Ne.symm hne)]

/-- What an update keeps of its own handle, it keeps of all. -/
theorem keeps_setHandle {β : Type} (part : Handle → β) {h : HandleId} {s : Handle}
    (hs : part s = part (M.handle h)) (h' : HandleId) :
    part ((M.setHandle h s).handle h') = part (M.handle h') := by
  rw [handle_setHandle]
  split
  · subst h'; exact hs
  · rfl

theorem rawLock_setRawLock (r r' : RawLockId) (s : RawLock) :
    (M.setRawLock r s).rawLock r' = if r = r' then s else M.rawLock r' := by
  simp only [setRawLock, rawLock, Table.get_set]

theorem queue_setQueue (q q' : QueueId) (s : Queue α) :
    (M.setQueue q s).queue q' = if q = q' then s else M.queue q' := by
  simp only [setQueue, queue, Table.get_set]

theorem thread_congr (h : M'.threads = M.threads) (u : ThreadId) : M'.thread u = M.thread u := by
  simp only [thread, h]

theorem thread_setThread (t u : ThreadId) (s : Thread α) :
    (M.setThread t s).thread u = if t = u then s else M.thread u := by
  simp only [setThread, thread, Table.get_set]

theorem thread_setCode (t u : ThreadId) (code : List (Instr α)) :
    (M.setCode t code).thread u = if t = u then { M.thread t with code } else M.thread u :=
  thread_setThread t u _

theorem handle_roused (h h' : HandleId) :
    (M.roused h).handle h' =
      if h = h' then { M.handle h with notified := true, parked := (M.handle h).parked.tail }
      else M.handle h' := by
  simp only [roused, handle, Table.get_set]

@[simp] theorem isResumable_roused (h h' : HandleId) :
    (M.roused h).isResumable h' = M.isResumable h' := by
  simp only [isResumable, handle_roused]
  split
  · subst h'; rfl
  · rfl

@[simp] theorem waiters_roused (h : HandleId) (p : Place) :
    (M.roused h).waiters p = M.waiters p := by
  cases p <;> rfl

@[simp] theorem waiters_note (e : Entry α) (p : Place) :
    (M.note e).waiters p = M.waiters p := by
  cases p <;> rfl

@[simp] theorem handle_note (e : Entry α) (h : HandleId) : (M.note e).handle h = M.handle h := rfl

@[simp] theorem isResumable_note (e : Entry α) (h : HandleId) :
    (M.note e).isResumable h = M.isResumable h := rfl

/-- A name means what it meant when another one is forgotten. -/
theorem object?_forget_ne {name name' : String} (h : name' ≠ name) :
    (M.forget name).object? name' = M.object? name' := by
  have key : ∀ names : List (String × Option Object),
      (names.map fun entry => (entry.1, if entry.1 = name then none else entry.2)).lookup name' =
        names.lookup name' := by
    intro names
    induction names with
    | nil => rfl
    | cons entry names ih =>
        obtain ⟨key, object⟩ := entry
        simp only [List.map_cons, List.lookup_cons, ih]
        split
        · rename_i hkey
          obtain rfl := beq_iff_eq.1 hkey
          rw [if_neg h]
        · rfl
  exact congrArg Option.join (key M.names)

/-- A name that was forgotten means nothing; the others mean what they meant. -/
theorem object?_forget {name name' : String} {o : Object}
    (h : (M.forget name).object? name' = some o) : M.object? name' = some o := by
  have key : ∀ names : List (String × Option Object),
      ((names.map fun entry => (entry.1, if entry.1 = name then none else entry.2)).lookup
        name').join = some o → (names.lookup name').join = some o := by
    intro names
    induction names with
    | nil => exact id
    | cons entry names ih =>
        obtain ⟨key, object⟩ := entry
        simp only [List.map_cons, List.lookup_cons]
        split
        · split <;> simp
        · exact ih
  exact key M.names h

namespace Change

variable {e : Effect}

theorem threads (h : Change t M e M') : M'.threads = M.threads := by
  cases h with
  | enter | relist | skip | rouse => simp [enqueue, Machine.note, roused]
  | _ => rfl

theorem thread (h : Change t M e M') (u : ThreadId) : M'.thread u = M.thread u := by
  simp only [Machine.thread, h.threads]

/-- The ready threads stay, and others come after them. -/
theorem ready (h : Change t M e M') : ∃ woken, M'.ready = M.ready ++ woken := by
  cases h with
  | @rouse p h => exact ⟨(M.handle h).parked.take 1, by simp [roused]⟩
  | resume => exact ⟨_, rfl⟩
  | unpark => exact ⟨_, rfl⟩
  | enter | relist | skip => exact ⟨[], by simp [enqueue, Machine.note]⟩
  | _ => exact ⟨[], (List.append_nil _).symm⟩

theorem names (h : Change t M e M') (hne : ∀ name, e ≠ .forget name) : M'.names = M.names := by
  cases h with
  | forget name => exact absurd rfl (hne name)
  | enter | relist | skip | rouse => exact names_setWaiters ..
  | _ => rfl

/-- The log grows by lines that report no operation. -/
theorem log (h : Change t M e M') :
    ∃ lines, M'.log = M.log ++ lines ∧ ∀ line ∈ lines, line.isFinished = false := by
  cases h with
  | @skip p h => exact ⟨[.skipped h], by simp [Machine.note], by simp [Entry.isFinished]⟩
  | note he => exact ⟨_, rfl, by simpa using he⟩
  | enter | relist | rouse => exact ⟨[], by simp [enqueue, roused], by simp⟩
  | _ => exact ⟨[], (List.append_nil _).symm, by simp⟩

theorem owner (h : Change t M e M') {m : MutexId} (hne : ∀ o, e ≠ .own m o) :
    (M'.mutex m).owner = (M.mutex m).owner := by
  cases h with
  | own m' o =>
      have : m' ≠ m := fun hc => hne o (by rw [hc])
      simp [mutex_setOwner, this]
  | enter p => exact owner_setWaiters ..
  | relist => exact owner_setWaiters ..
  | skip => exact owner_setWaiters ..
  | rouse => exact owner_setWaiters ..
  | _ => rfl

theorem waiters (h : Change t M e M') {p : Place} (henter : e ≠ .enter p) (hwake : e ≠ .wake p) :
    M'.waiters p = M.waiters p := by
  cases h with
  | own => exact waiters_setOwner ..
  | enter p' =>
      have : p' ≠ p := fun hc => henter (by rw [hc])
      simp [enqueue, waiters_setWaiters, this]
  | @relist p' =>
      have : p' ≠ p := fun hc => hwake (by rw [hc])
      simp [waiters_setWaiters, this]
  | @skip p' =>
      have : p' ≠ p := fun hc => hwake (by rw [hc])
      simp [waiters_setWaiters, this]
  | @rouse p' =>
      have : p' ≠ p := fun hc => hwake (by rw [hc])
      simp [waiters_setWaiters, this]
  | resume => exact waiters_roused ..
  | _ => cases p <;> rfl

/-- A list grows only when somebody enters it. -/
theorem mem_of_mem_waiters (h : Change t M e M') {p : Place} (henter : e ≠ .enter p) {u : HandleId}
    (hu : u ∈ (M'.waiters p).toList) : u ∈ (M.waiters p).toList := by
  by_cases hwake : e = .wake p
  · subst hwake
    cases h with
    | relist hs => rw [hs]; simpa using hu
    | skip hs | rouse hs => rw [hs]; exact List.mem_cons_of_mem _ (by simpa using hu)
  · rwa [h.waiters henter hwake] at hu

theorem queue (h : Change t M e M') {q : QueueId} (hne : e ≠ .refill q) :
    M'.queue q = M.queue q := by
  cases h with
  | @refill q' =>
      have : q' ≠ q := fun hc => hne (by rw [hc])
      rw [queue_setQueue, if_neg this]
  | enter | relist | skip | rouse => simp [enqueue, Machine.note, roused, Machine.queue]
  | _ => rfl

theorem object? (h : Change t M e M') {name : String} {o : Object}
    (ho : M'.object? name = some o) : M.object? name = some o := by
  cases h with
  | forget => exact object?_forget ho
  | enter | relist | skip | rouse => simpa [enqueue, Machine.note, roused, Machine.object?] using ho
  | _ => exact ho

/-- Who has terminated stays so. -/
theorem isResumable (h : Change t M e M') {u : HandleId} (live : M'.isResumable u = true) :
    M.isResumable u = true := by
  cases h with
  | terminate h' =>
      simp only [Machine.isResumable, handle_setHandle] at live ⊢
      split at live
      · simp at live
      · exact live
  | enter | relist | skip | rouse | resume => simpa [enqueue] using live
  | _ => exact live

/-- A notification stays until the task itself takes it. -/
theorem notified (h : Change t M e M') {u : HandleId} (hn : (M.handle u).notified = true) :
    (M'.handle u).notified = true := by
  cases h with
  | terminate h' =>
      exact (keeps_setHandle (·.notified) (by rfl) u).trans hn
  | rouse | resume =>
      simp only [handle_roused, handle_setWaiters]
      split <;> simp [hn]
  | enter | relist | skip => simpa [enqueue] using hn
  | _ => exact hn

end Change

end Machine

end BlockingSync
