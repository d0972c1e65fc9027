/-
What the log tells of the primitives: waiters that are passed over, and bounds that are
set.
-/
import BlockingSync.Machine.State
import BlockingSync.Log.Event

namespace BlockingSync

/-- The bound of a queue was set, which added that many slots. -/
def Log.Event.boundSet (capacity added : Nat) : Log.Event :=
  { level := .debug
    target := "fastsync::core::sync::queue::blocking"
    message := "Queue capacity changed"
    fields := [("capacity", .integer capacity), ("added", .integer added)] }

/-- A waiter was passed over because its task has terminated. -/
def Log.Event.waiterSkipped (e : Terminated) : Log.Event :=
  { level := .trace
    target := "fastsync::core::sync::wake"
    message := "Skipping waiter that cannot resume"
    fields := [("task", .integer e.task), ("error", .text e.message)] }

/-- What the log tells of a line of the machine's record; results are not told. -/
def Entry.event? {α : Type} : Entry α → Option Log.Event
  | .finished .. => none
  | .skipped h => some (.waiterSkipped ⟨Machine.taskNumber h⟩)
  | .resized capacity added => some (.boundSet capacity.val added)

end BlockingSync
