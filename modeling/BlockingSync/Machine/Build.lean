/-
Making the objects of a machine.

A machine starts with one thread and one handle for each task.  Objects are added in
order; a handle that belongs to no thread gets the next number.
-/
import BlockingSync.Machine.Schedule

namespace BlockingSync.Machine

variable {α : Type}

/-- A machine with a thread for each name and no objects. -/
def ofTasks (names : List String) : Machine α :=
  { handles := ⟨names.map fun _ => {}⟩
    threads := ⟨names.map fun _ => {}⟩
    handleNames := names }

/-- Gives a new object its name. -/
def bind (M : Machine α) (name : String) (object : Object) : Machine α :=
  { M with names := M.names ++ [(name, some object)] }

/-- Adds a free mutex. -/
def addMutex (M : Machine α) (config : Config) : Machine α × MutexId :=
  ({ M with mutexes := M.mutexes.add ⟨none, .empty config⟩ }, M.mutexes.size)

/-- Adds a condition variable without waiters. -/
def addCondition (M : Machine α) (config : Config) : Machine α × ConditionId :=
  ({ M with conditions := M.conditions.add (.empty config) }, M.conditions.size)

/-- Adds a queue with the given bound and values. -/
def addQueue (M : Machine α) (config : Config) (r : Record α) : Machine α × QueueId :=
  let (M, mutex) := M.addMutex config
  let (M, valueAvailable) := M.addCondition config
  let (M, spaceAvailable) := M.addCondition config
  let values := (WaitList.empty config).append r.values
  let s : Queue α := ⟨mutex, valueAvailable, spaceAvailable, values, r.capacity⟩
  ({ M with queues := M.queues.add s }, M.queues.size)

/-- Adds an adapter of a free raw lock. -/
def addRawLock (M : Machine α) : Machine α × RawLockId :=
  ({ M with rawLocks := M.rawLocks.add {} }, M.rawLocks.size)

/-- Adds a task handle that belongs to no thread. -/
def addHandle (M : Machine α) (name : String) : Machine α × HandleId :=
  ({ M with handles := M.handles.add {}, handleNames := M.handleNames ++ [name] }, M.handles.size)

/-- Adds an empty list of tasks. -/
def addTaskList (M : Machine α) (config : Config) : Machine α × TaskListId :=
  ({ M with taskLists := M.taskLists.add (.empty config) }, M.taskLists.size)

end BlockingSync.Machine
