/-
Waiting on a condition variable.

A wait releases the lock, suspends until a signal, and acquires the lock again like
anybody else.  A task that does not hold the lock does not wait: if nobody holds it, the
wait is over at once, and if another task does, the wait is refused.

With a native mutex the check, the entry in the list and the release are one; with any
other lock they go through its interface.
-/
import BlockingSync.Machine.Lock

namespace BlockingSync

/-- How the first half of a wait ends. -/
inductive Departure where
  /-- The task is in the list and the lock is released. -/
  | departed
  /-- Nobody held the lock. -/
  | unowned
  /-- Another task holds the lock. -/
  | notOwner
  deriving DecidableEq

namespace Machine

variable {α : Type}

/-- Releases a mutex that the task owns and puts the task on the list of a condition
variable. -/
def departNative (M : Machine α) (c : ConditionId) (m : MutexId) (h : HandleId) :
    Machine α × Departure :=
  match (M.mutex m).owner with
  | none => (M, .unowned)
  | some owner =>
    if owner = h then
      ((((M.enqueue (.condition c) h).setOwner m none).wakeOne (.mutex m)).1, .departed)
    else (M, .notOwner)

/-- Does the same with any lock, through its interface. -/
def departThrough (M : Machine α) (c : ConditionId) (l : Lockable) (h : HandleId) :
    Machine α × Departure :=
  if M.isHeldByOther l h then (M, .notOwner)
  else
    match M.exclusiveRelease l h (.ofChange (·.enqueue (.condition c) h)) with
    | (M, .released) => (M, .departed)
    | (M, _) => (M, .unowned)

/-- The first half of a wait. -/
def depart (M : Machine α) (c : ConditionId) (l : Lockable) (h : HandleId) :
    Machine α × Departure :=
  match l with
  | .native m => M.departNative c m h
  | l => M.departThrough c l h

end Machine

end BlockingSync
