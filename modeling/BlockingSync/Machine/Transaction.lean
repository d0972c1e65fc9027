/-
What queues do while their own mutex is held.

A transaction that cannot go on waits on one of the two condition variables, which
releases the mutex, and starts over once it holds the mutex again.  Each value added
wakes one consumer, and each value taken from a bounded queue wakes one producer if
that leaves space.
-/
import BlockingSync.Machine.Condition

namespace BlockingSync

/-- What a thread does after an instruction. -/
inductive Next (α : Type) where
  /-- Go on with these instructions and then the rest. -/
  | goOn (code : List (Instr α))
  /-- Stop here until woken, then do the instruction again. -/
  | park
  /-- Give the operation up. -/
  | unwind (message : String)

/-- Go on by reporting a result. -/
def Next.yield {α : Type} (path : Path) (result : Result α) : Next α :=
  .goOn [.report path result]

namespace Queue

variable {α : Type}

/-- Whether a value cannot be added now. -/
def isFull (s : Queue α) : Bool :=
  0 < s.capacity.val && s.capacity.val ≤ s.values.length

/-- Whether a bounded queue has space. -/
def hasSpace (s : Queue α) : Bool :=
  0 < s.capacity.val && s.values.length < s.capacity.val

/-- How many slots a new bound adds to a bounded queue. -/
def addedSlots (s : Queue α) (capacity : Word) : Nat :=
  if 0 < s.capacity.val then capacity.val - s.capacity.val else 0

/-- What would be kept of the queue. -/
def toRecord (s : Queue α) : Record α :=
  ⟨s.capacity, s.values.toList⟩

end Queue

namespace Machine

variable {α : Type}

/-- Ends a transaction: the mutex is released, then the result reported. -/
def finishTransaction (s : Queue α) (path : Path) (result : Result α) : Next α :=
  .goOn [.unlock s.mutex, .report path result]

/-- Waits on a condition variable of a queue whose mutex is held, then does `again`. -/
def waitHeld (M : Machine α) (t : ThreadId) (s : Queue α) (c : ConditionId) (again : Instr α) :
    Machine α × Next α :=
  match M.departNative c s.mutex t with
  | (M, .departed) => (M, .goOn [.suspend t (some (.condition c)), .lock s.mutex, again])
  | (M, _) => (M, .goOn [again])

/-- Tasks that wait for a value or for space. -/
def queueWaiting (M : Machine α) (q : QueueId) : Nat :=
  let s := M.queue q
  (M.waiters (.condition s.valueAvailable)).length +
    (M.waiters (.condition s.spaceAvailable)).length

/-- Adds a value at the end once there is space. -/
def addValue (M : Machine α) (t : ThreadId) (q : QueueId) (path : Path) (v : α) :
    Machine α × Next α :=
  let s := M.queue q
  if s.isFull then M.waitHeld t s s.spaceAvailable (.transact q path (.add v))
  else
    let M := M.setQueue q { s with values := s.values.push v }
    ((M.wakeOne (.condition s.valueAvailable)).1, finishTransaction s path .done)

/-- Takes the first value once there is one. -/
def takeValue (M : Machine α) (t : ThreadId) (q : QueueId) (path : Path) : Machine α × Next α :=
  let s := M.queue q
  match s.values.shift? with
  | none => M.waitHeld t s s.valueAvailable (.transact q path .take)
  | some (v, values) =>
    let s := { s with values }
    let M := M.setQueue q s
    let M := if s.hasSpace then (M.wakeOne (.condition s.spaceAvailable)).1 else M
    (M, finishTransaction s path (.taken v))

/-- Sets the bound and wakes a producer for every slot that it adds. -/
def resizeQueue (M : Machine α) (q : QueueId) (capacity : Word) : Machine α :=
  let s := M.queue q
  let added := s.addedSlots capacity
  let M := (M.setQueue q { s with capacity }).note (.resized capacity added)
  M.wakeMany (.condition s.spaceAvailable) added

/-- Drops all values and wakes one producer. -/
def clearQueue (M : Machine α) (q : QueueId) : Machine α :=
  let s := M.queue q
  ((M.setQueue q { s with values := s.values.clear }).wakeOne (.condition s.spaceAvailable)).1

/-- Performs a transaction. -/
def transact (M : Machine α) (t : ThreadId) (q : QueueId) (path : Path) :
    Transaction α → Machine α × Next α
  | .add v => M.addValue t q path v
  | .take => M.takeValue t q path
  | .tryTake =>
    if (M.queue q).values.isEmpty then
      (M, finishTransaction (M.queue q) path (.failed .emptyQueue))
    else M.takeValue t q path
  | .clear => (M.clearQueue q, finishTransaction (M.queue q) path .done)
  | .resize capacity => (M.resizeQueue q capacity, finishTransaction (M.queue q) path .ok)
  | .isEmpty => (M, finishTransaction (M.queue q) path (.flag (M.queue q).values.isEmpty))
  | .length => (M, finishTransaction (M.queue q) path (.count (M.queue q).values.length))
  | .numWaiting => (M, finishTransaction (M.queue q) path (.count (M.queueWaiting q)))
  | .capacity => (M, finishTransaction (M.queue q) path (.count (M.queue q).capacity.val))
  | .values => (M, finishTransaction (M.queue q) path (.contents (M.queue q).values.toList))

end Machine

end BlockingSync
