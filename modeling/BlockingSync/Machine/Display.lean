/-
How the state shows itself: the texts for developers, the audits, and the views that
observers take of objects.
-/
import BlockingSync.Machine.Transaction

namespace BlockingSync

/-- An object as an observer sees it. -/
inductive View (α : Type) where
  | mutex (locked : Bool) (owner : Option String) (waiting : Nat)
  | condition (waiting : Nat)
  | queue (capacity : Nat) (items : List α) (waiting : Nat)
  | adapter (locked : Bool)
  | task (resumable : Bool)
  | tasks (names : List String)
  | dropped

/-- A mutex as a developer sees it. -/
def Mutex.debug (s : Mutex) : String :=
  let owner :=
    match s.owner with
    | some h => s!"Some({Machine.taskNumber h})"
    | none => "None"
  s!"Mutex \x7b owner: {owner}, waiting: {s.waiting.length} \x7d"

/-- A condition variable as a developer sees it. -/
def WaitList.debugCondition (waiting : WaitList HandleId) : String :=
  s!"ConditionVariable \x7b waiting: {waiting.length} \x7d"

/-- A queue as a developer sees it. -/
def Queue.debug {α : Type} (s : Queue α) : String :=
  s!"BlockingQueue \x7b len: {s.values.length}, capacity: {s.capacity.val} \x7d"

/-- An adapter as a developer sees it; zero stands for no owner. -/
def RawLock.debug (s : RawLock) : String :=
  s!"RawLockAdapter \x7b locked: {s.locked}, owner: {(s.owner.map Machine.taskNumber).getD 0} \x7d"

namespace Machine

variable {α : Type}

/-- A task as a developer sees it. -/
def debugTask (M : Machine α) (h : HandleId) : String :=
  s!"Task \x7b id: {taskNumber h}, resumable: {M.isResumable h} \x7d"

/-! ### Audits -/

/-- The leak of a primitive with that many survivors, if there are any. -/
def leakOf (kind : PrimitiveKind) (survivors : Nat) : Option Leak :=
  if survivors = 0 then none else some ⟨kind, survivors⟩

/-- Whether giving a mutex up would strand resumable tasks. -/
def auditMutex (M : Machine α) (m : MutexId) : Option Leak :=
  leakOf .mutex (M.survivors (M.waiters (.mutex m)))

/-- Whether giving a condition variable up would strand resumable tasks. -/
def auditCondition (M : Machine α) (c : ConditionId) : Option Leak :=
  leakOf .conditionVariable (M.survivors (M.waiters (.condition c)))

/-- Whether giving a queue up would strand resumable tasks on any of its three lists. -/
def auditQueue (M : Machine α) (q : QueueId) : Option Leak :=
  let s := M.queue q
  leakOf .queue (M.survivors (M.waiters (.mutex s.mutex)) +
    M.survivors (M.waiters (.condition s.valueAvailable)) +
    M.survivors (M.waiters (.condition s.spaceAvailable)))

/-- Whether giving an object up would strand resumable tasks. -/
def auditObject (M : Machine α) : Object → Option Leak
  | .mutex m | .wrapped m | .minimal m => M.auditMutex m
  | .condition c => M.auditCondition c
  | .queue q => M.auditQueue q
  | .adapter _ | .task _ | .tasks _ => none

/-! ### Views -/

/-- The view of an object. -/
def view (M : Machine α) : Object → View α
  | .mutex m | .wrapped m | .minimal m =>
    let s := M.mutex m
    .mutex s.owner.isSome (s.owner.map M.nameOf) s.waiting.length
  | .condition c => .condition (M.waiters (.condition c)).length
  | .queue q =>
    let s := M.queue q
    .queue s.capacity.val s.values.toList (M.queueWaiting q)
  | .adapter r => .adapter (M.rawLock r).locked
  | .task h => .task (M.isResumable h)
  | .tasks l => .tasks ((M.taskLists.get l).toList.map M.nameOf)

/-- The views of all objects, by name. -/
def views (M : Machine α) : List (String × View α) :=
  M.names.map fun (name, object) => (name, (object.map M.view).getD .dropped)

end Machine

end BlockingSync
