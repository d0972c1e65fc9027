/-
What tasks do, and what comes of it.

Operations name the objects they work on; whether a name means anything, and whether
its object knows the operation, is found out when the operation is performed.
-/
import BlockingSync.Record.Basic
import BlockingSync.Error.Basic

namespace BlockingSync

/-- The number of a task handle.  Each thread's own handle has the number of the thread. -/
abbrev HandleId := Nat

/-- The number of a thread of control. -/
abbrev ThreadId := Nat

abbrev MutexId := Nat

abbrev ConditionId := Nat

abbrev QueueId := Nat

abbrev RawLockId := Nat

/-- The number of a plain list of tasks. -/
abbrev TaskListId := Nat

/-- How an operation is reached: its index among the top-level ones, then its indices in the
bodies around it. -/
abbrev Path := List Nat

/-- What can be done to a task handle. -/
inductive TaskVerb where
  | suspend
  | resume
  | terminate
  | isResumable
  | id
  | isCurrent
  | isSame (other : String)
  | debug
  /-- Append the handle to a list of tasks a number of times. -/
  | pushTo (list : String) (times : Nat)
  | unknown

/-- What can be done to an object.  An action that runs inside a release may panic with a
text. -/
inductive Verb (α : Type) where
  | lock
  | tryLock
  | unlock
  | isLocked
  | isOwned
  | owner
  | numWaiting
  | exclusiveUnlock (panic : Option String)
  | audit
  | debug
  | json
  | acquire
  | release
  | exclusiveRelease (panic : Option String)
  | isHeldByOther
  | isNative
  | isHeldByCurrent
  | tryAcquire
  | wait (lock : String)
  | signal
  | broadcast
  | push (v : α)
  | pop
  | popWith (nonBlocking : Bool)
  | shift
  | clear
  | isEmpty
  | length
  | size
  | capacity
  | values
  | setCapacity (capacity : Word)
  | snapshot
  | pooled
  | survivors
  /-- Drain tasks, at most `limit` of them if it is given, and resume each. -/
  | drainResume (limit : Option Nat)
  | unknown

/-- An operation of a task. -/
inductive Op (α : Type) where
  | panic (message : String)
  | drop (object : String)
  | onTask (handle : String) (verb : TaskVerb)
  | onObject (object : String) (verb : Verb α)
  /-- Run the body while holding a mutex. -/
  | synchronize (mutex : String) (body : List (Op α))
  /-- The same through a guard, noting whether the mutex is locked at both ends. -/
  | guard (mutex : String) (body : List (Op α))
  deriving Inhabited

/-- What an operation yields. -/
inductive Result (α : Type) where
  | done
  | ok
  | flag (b : Bool)
  | count (n : Nat)
  | text (s : String)
  /-- A task, by its name. -/
  | task (name : Option String)
  | taken (v : α)
  | contents (vs : List α)
  | record (r : Record α)
  | failed (e : SyncError)
  | leaked (leak : Leak)
  | terminated (e : Terminated)
  | resumed (tasks : List (String × Bool))
  /-- Whether the mutex was locked after the guard was taken and before it was dropped. -/
  | guarded (locked beforeDrop : Bool)
  /-- Whether a lock was released, and whether the action ran. -/
  | unlocked (released ran : Bool)
  /-- Whether a lock was released, and how often the action ran. -/
  | released (released : Bool) (ran : Nat)
  /-- The object is gone, by an abort if it leaked. -/
  | dropped (leak : Option Leak)
  | panicked (message : String)
  | noSuchObject
  | badOperation

/-- A part of a queue operation that runs while the queue's own mutex is held. -/
inductive Transaction (α : Type) where
  | add (v : α)
  | take
  | tryTake
  | clear
  | resize (capacity : Word)
  | isEmpty
  | length
  | numWaiting
  | capacity
  | values

/-- A list that tasks wait on. -/
inductive Place where
  | mutex (m : MutexId)
  | condition (c : ConditionId)
  deriving DecidableEq

/-- What is left of an operation that has begun.  A thread can stop only inside `seize` and
`suspend`, so whatever lies between two instructions happens at one stroke. -/
inductive Instr (α : Type) where
  | start (path : Path) (op : Op α)
  /-- Own a mutex, queueing up for it as often as need be. -/
  | lock (m : MutexId)
  /-- Release a mutex, whoever owns it. -/
  | unlock (m : MutexId)
  /-- Note the state of a mutex, then release it. -/
  | closeGuard (m : MutexId) (path : Path)
  /-- Own a raw lock. -/
  | seize (r : RawLockId)
  /-- Wait for a notification of a handle.  A thread that waits at a place has put its own
  handle on the list there before. -/
  | suspend (h : HandleId) (place : Option Place)
  | transact (q : QueueId) (path : Path) (t : Transaction α)
  | report (path : Path) (result : Result α)

/-- A line of the log. -/
inductive Entry (α : Type) where
  /-- An operation has finished; its list was given in the step with this index. -/
  | finished (thread : ThreadId) (step : Nat) (path : Path) (result : Result α)
  /-- A waiter was passed over because it has terminated. -/
  | skipped (h : HandleId)
  /-- The bound of a queue was set, and this many slots were added. -/
  | resized (capacity : Word) (added : Nat)

end BlockingSync
