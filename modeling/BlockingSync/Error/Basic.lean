/-
What can go wrong, and how it is told.

`SyncError` is what callers of the primitives get back.  `Leak` is a primitive given
up while a task that could still run waits on it; nobody recovers from that.  A wake of
a task that has terminated fails too, but only the waker learns of it.
-/
import BlockingSync.Text.Quoted

namespace BlockingSync

/-- A failure that the caller can handle. -/
inductive SyncError where
  /-- The lock given to a wait is held by another task. -/
  | ownership
  | argument (reason : String)
  | emptyQueue
  /-- A record of a queue cannot be read, or a value cannot be written. -/
  | format (reason : String)
  deriving DecidableEq

namespace SyncError

/-- The sentence shown to a user. -/
def message : SyncError → String
  | .ownership => "Not owner"
  | .argument reason => "Invalid argument: " ++ reason
  | .emptyQueue => "queue empty"
  | .format reason => "Malformed queue record: " ++ reason

/-- The kind of the error. -/
def kind : SyncError → String
  | .ownership => "Ownership"
  | .argument _ => "Argument"
  | .emptyQueue => "EmptyQueue"
  | .format _ => "Format"

/-- What the kinds with a text say beyond the kind. -/
def reason? : SyncError → Option String
  | .argument reason | .format reason => some reason
  | .ownership | .emptyQueue => none

/-- The error as a developer sees it. -/
def debug (e : SyncError) : String :=
  match e.reason? with
  | some reason => e.kind ++ "(" ++ Text.quoted reason ++ ")"
  | none => e.kind

/-- The name under which the error is documented. -/
def code : SyncError → String
  | .ownership => "sync::ownership"
  | .argument _ => "sync::argument"
  | .emptyQueue => "sync::empty_queue"
  | .format _ => "sync::format"

/-- Advice to the user. -/
def help : SyncError → String
  | .ownership => "Only the task holding the mutex may wait on a condition variable with it."
  | .argument _ => "Queue capacities must be positive."
  | .emptyQueue => "Use a blocking pop to wait for a value instead."
  | .format _ => "A persisted queue starts with its capacity followed by the queued values."

end SyncError

/-- A kind of primitive that tasks wait on. -/
inductive PrimitiveKind where
  | mutex
  | conditionVariable
  | queue
  deriving DecidableEq

namespace PrimitiveKind

/-- The name as a phrase. -/
def phrase : PrimitiveKind → String
  | .mutex => "mutex"
  | .conditionVariable => "condition variable"
  | .queue => "queue"

/-- The name as one word. -/
def word : PrimitiveKind → String
  | .mutex => "Mutex"
  | .conditionVariable => "ConditionVariable"
  | .queue => "Queue"

end PrimitiveKind

/-- A primitive given up with resumable tasks still waiting on it. -/
structure Leak where
  kind : PrimitiveKind
  survivors : Nat
  deriving DecidableEq

namespace Leak

/-- The sentence that tells of the leak, with the place of the primitive in memory. -/
def message (leak : Leak) (address : String) : String :=
  s!"{leak.kind.phrase} {address} freed with {leak.survivors} live task(s) waiting"

/-- The leak as a developer sees it. -/
def debug (leak : Leak) (address : Nat) : String :=
  s!"FatalConsistencyError \x7b kind: {leak.kind.word}, address: {address}, " ++
    s!"survivors: {leak.survivors} \x7d"

/-- The name under which the leak is documented. -/
def code : String := "sync::fatal_consistency"

/-- The last words of the process. -/
def lastWords (leak : Leak) (address : String) : String :=
  s!"fastsync: [BUG] {leak.message address}\n"

end Leak

/-- An address as it is written in a message. -/
def hexAddress (n : Nat) : String :=
  "0x" ++ Text.hexadecimal n

/-- A wake that failed because the task with this number has terminated. -/
structure Terminated where
  task : Nat
  deriving DecidableEq

namespace Terminated

def message (e : Terminated) : String :=
  s!"Task {e.task} has terminated"

def debug (e : Terminated) : String :=
  s!"Terminated({e.task})"

end Terminated

end BlockingSync
