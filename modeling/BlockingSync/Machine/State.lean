/-
The state of the machine: tasks, locks, condition variables and queues under one
schedule.

At most one thread runs at a time.  It is the first of the ready ones, and it goes on
until its list ends or it parks; then the next takes over.  Woken threads become ready
in the order in which they are woken.
-/
import BlockingSync.Machine.Table
import BlockingSync.Machine.Operation
import BlockingSync.WaitList.Basic

namespace BlockingSync

/-- A task handle. -/
structure Handle where
  /-- Whether a notification is pending. -/
  notified : Bool := false
  /-- Whether the task can no longer be resumed. -/
  terminated : Bool := false
  /-- The threads parked on the handle, the one that parked first in front. -/
  parked : List ThreadId := []
  deriving Inhabited

/-- A lock with an owner. -/
structure Mutex where
  owner : Option HandleId
  waiting : WaitList HandleId
  deriving Inhabited

/-- A lock that knows nothing of tasks, with a slot beside it for the task that owns it. -/
structure RawLock where
  locked : Bool := false
  owner : Option HandleId := none
  /-- The threads parked on the lock, the one that parked first in front. -/
  parked : List ThreadId := []
  deriving Inhabited

/-- A queue.  All of it is guarded by its own mutex; consumers wait for a value and producers
for space. -/
structure Queue (α : Type) where
  mutex : MutexId
  valueAvailable : ConditionId
  spaceAvailable : ConditionId
  values : WaitList α
  /-- The bound; zero stands for none. -/
  capacity : Word
  deriving Inhabited

/-- A thread of control. -/
structure Thread (α : Type) where
  /-- What is left of the operation in progress. -/
  code : List (Instr α) := []
  /-- The top-level operations still to come, with their indices. -/
  pending : List (Nat × Op α) := []
  /-- The index of the operation in progress. -/
  top : Nat := 0
  /-- The index of the step in which the list was given. -/
  step : Nat := 0
  exited : Bool := false
  deriving Inhabited

/-- An object that operations can name. -/
inductive Object where
  | mutex (m : MutexId)
  | condition (c : ConditionId)
  | queue (q : QueueId)
  | adapter (r : RawLockId)
  /-- A lock that hides the mutex inside it. -/
  | wrapped (m : MutexId)
  /-- A hidden mutex that cannot tell whether another task holds it. -/
  | minimal (m : MutexId)
  | task (h : HandleId)
  | tasks (l : TaskListId)

/-- The whole state. -/
structure Machine (α : Type) where
  handles : Table Handle := {}
  mutexes : Table Mutex := {}
  conditions : Table (WaitList HandleId) := {}
  queues : Table (Queue α) := {}
  rawLocks : Table RawLock := {}
  taskLists : Table (WaitList HandleId) := {}
  threads : Table (Thread α) := {}
  /-- The thread that runs, and those that will run after it. -/
  ready : List ThreadId := []
  log : List (Entry α) := []
  /-- The names of the objects; an object that was dropped has lost its meaning. -/
  names : List (String × Option Object) := []
  /-- The names of the handles, by their numbers. -/
  handleNames : List String := []

namespace Machine

variable {α : Type}

/-! ### Parts of the state -/

def handle (M : Machine α) (h : HandleId) : Handle := M.handles.get h

def setHandle (M : Machine α) (h : HandleId) (s : Handle) : Machine α :=
  { M with handles := M.handles.set h s }

def mutex (M : Machine α) (m : MutexId) : Mutex := M.mutexes.get m

def setMutex (M : Machine α) (m : MutexId) (s : Mutex) : Machine α :=
  { M with mutexes := M.mutexes.set m s }

/-- Gives a mutex another owner, or none. -/
def setOwner (M : Machine α) (m : MutexId) (owner : Option HandleId) : Machine α :=
  M.setMutex m { M.mutex m with owner }

def queue (M : Machine α) (q : QueueId) : Queue α := M.queues.get q

def setQueue (M : Machine α) (q : QueueId) (s : Queue α) : Machine α :=
  { M with queues := M.queues.set q s }

def rawLock (M : Machine α) (r : RawLockId) : RawLock := M.rawLocks.get r

def setRawLock (M : Machine α) (r : RawLockId) (s : RawLock) : Machine α :=
  { M with rawLocks := M.rawLocks.set r s }

def thread (M : Machine α) (t : ThreadId) : Thread α := M.threads.get t

def setThread (M : Machine α) (t : ThreadId) (s : Thread α) : Machine α :=
  { M with threads := M.threads.set t s }

/-- Replaces what is left of the operation in progress. -/
def setCode (M : Machine α) (t : ThreadId) (code : List (Instr α)) : Machine α :=
  M.setThread t { M.thread t with code }

/-- The tasks that wait at a place. -/
def waiters (M : Machine α) : Place → WaitList HandleId
  | .mutex m => (M.mutex m).waiting
  | .condition c => M.conditions.get c

def setWaiters (M : Machine α) : Place → WaitList HandleId → Machine α
  | .mutex m, waiting => M.setMutex m { M.mutex m with waiting }
  | .condition c, waiting => { M with conditions := M.conditions.set c waiting }

/-- Puts a task at the end of those that wait at a place. -/
def enqueue (M : Machine α) (p : Place) (h : HandleId) : Machine α :=
  M.setWaiters p ((M.waiters p).push h)

/-- Adds a line to the log. -/
def note (M : Machine α) (e : Entry α) : Machine α :=
  { M with log := M.log ++ [e] }

/-- Puts a thread at the end of the ready ones. -/
def makeReady (M : Machine α) (t : ThreadId) : Machine α :=
  { M with ready := M.ready ++ [t] }

/-! ### Questions -/

/-- Whether a task can be resumed. -/
def isResumable (M : Machine α) (h : HandleId) : Bool :=
  !(M.handle h).terminated

/-- How many of the waiting tasks can still be resumed. -/
def survivors (M : Machine α) (l : WaitList HandleId) : Nat :=
  (l.toList.filter M.isResumable).length

/-- The number under which messages speak of a task; zero is nobody's. -/
def taskNumber (h : HandleId) : Nat := h + 1

/-- The name of a task. -/
def nameOf (M : Machine α) (h : HandleId) : String :=
  M.handleNames.getD h ""

/-- The object that a name means. -/
def object? (M : Machine α) (name : String) : Option Object :=
  (M.names.lookup name).join

/-- The thread that a name means. -/
def thread? (M : Machine α) (name : String) : Option ThreadId :=
  (M.handleNames.take M.threads.size).idxOf? name

/-- The handle that a name means: that of a thread, or one that belongs to no thread. -/
def handle? (M : Machine α) (name : String) : Option HandleId :=
  match M.thread? name with
  | some h => some h
  | none =>
    match M.object? name with
    | some (.task h) => some h
    | _ => none

end Machine

end BlockingSync
