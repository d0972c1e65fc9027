/-
Queues as bytes or as text, and back.

What is stored of a queue is its record.  A queue that is restored has no waiters, whoever
waited at the one that was stored.  It is added to those that there are, or it takes the place
of another; whoever is at work on that one goes on with it.
-/
import BlockingSync.Machine.Build
import BlockingSync.Record.BinaryForm
import BlockingSync.Record.JsonForm

namespace BlockingSync.Machine

variable {α : Type} {s : Shape}

/-- The bytes of a queue. -/
def storeQueue (M : Machine s.Value) (q : QueueId) : Except SyncError (List UInt8) :=
  Record.binary (s := s) (M.queue q).toRecord

/-- Adds the queue whose record stands at the front of the bytes. -/
def restoreQueue (M : Machine s.Value) (config : Config) (bytes : List UInt8) :
    Except SyncError (Machine s.Value × QueueId) := do
  return M.addQueue config (← Record.ofBinary s bytes)

/-- The text of a queue. -/
def writeQueue (M : Machine s.Value) (q : QueueId) : Except SyncError String :=
  Record.jsonText (s := s) (M.queue q).toRecord

/-- Adds the queue whose record is the text. -/
def readQueue (M : Machine s.Value) (config : Config) (text : String) :
    Except SyncError (Machine s.Value × QueueId) := do
  return M.addQueue config (← Record.ofJsonText s.jsonReader text)

/-! ### In place -/

/-- Puts a new queue with the given bound and values in the place of a queue: its mutex is free,
and nobody waits on its lists. -/
def replaceQueue (M : Machine α) (q : QueueId) (config : Config) (r : Record α) : Machine α :=
  let s := M.queue q
  let values := (WaitList.empty config).append r.values
  { M with
    mutexes := M.mutexes.set s.mutex ⟨none, .empty config⟩
    conditions := (M.conditions.set s.valueAvailable (.empty config)).set s.spaceAvailable
      (.empty config)
    queues := M.queues.set q { s with values, capacity := r.capacity } }

/-- Replaces a queue of JSON values by the one that its text is read as. -/
def rereadQueue (M : Machine Json) (q : QueueId) (config : Config) :
    Except SyncError (Machine Json) := do
  let text := (M.queue q).toRecord.toJson.compact
  return M.replaceQueue q config (← Record.ofJsonText (Json.reader (Json.depthLimit - 1)) text)

/-- Replaces a queue by the one that is restored from its bytes. -/
def reloadQueue (M : Machine s.Value) (q : QueueId) (config : Config) :
    Except SyncError (Machine s.Value) := do
  return M.replaceQueue q config (← Record.ofBinary s (← M.storeQueue q))

end BlockingSync.Machine
