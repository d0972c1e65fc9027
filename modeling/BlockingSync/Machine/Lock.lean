/-
Locks.

Releasing a mutex never hands it on.  It clears the owner and wakes the earliest waiter,
which then competes for the mutex like anybody else.  A mutex does not ask who releases
it.

An adapter puts an owner beside a raw lock and refuses a release by anybody else.

A condition variable works with any `Lockable`.  Of these only the native mutex shows
its inside; a wrapped one is reached through the operations of the interface alone.
-/
import BlockingSync.Machine.Wake

namespace BlockingSync

/-- A lock that a condition variable can work with. -/
inductive Lockable where
  | native (m : MutexId)
  | wrapped (m : MutexId)
  /-- A wrapped mutex that always denies being held by another task. -/
  | minimal (m : MutexId)
  | raw (r : RawLockId)

/-- What runs while a lock is being released: it changes the state, and may end in a panic. -/
def Action (α : Type) : Type :=
  Machine α → Machine α × Option String

namespace Action

variable {α : Type}

/-- Nothing, or a panic with the given text. -/
def ofPanic (panic : Option String) : Action α :=
  fun M => (M, panic)

/-- A change of the state. -/
def ofChange (change : Machine α → Machine α) : Action α :=
  fun M => (change M, none)

end Action

/-- How a release ends. -/
inductive Release where
  /-- The lock was not there to be released. -/
  | refused
  | released
  /-- The action panicked with the text. -/
  | panicked (message : String)
  deriving DecidableEq

namespace Release

/-- The end of a release after an action. -/
def after (panic : Option String) (otherwise : Release) : Release :=
  match panic with
  | some message => .panicked message
  | none => otherwise

end Release

namespace Machine

variable {α : Type}

/-! ### Mutexes -/

/-- Makes a task the owner of a free mutex. -/
def tryLock (M : Machine α) (m : MutexId) (h : HandleId) : Machine α × Bool :=
  match (M.mutex m).owner with
  | some _ => (M, false)
  | none => (M.setOwner m (some h), true)

/-- Releases a mutex: the owner goes, the action runs, and the earliest waiter is woken, also
when the action panics.  On a free mutex the action runs only if `runWhenFree`. -/
def releaseWith (M : Machine α) (m : MutexId) (action : Action α) (runWhenFree : Bool) :
    Machine α × Release :=
  match (M.mutex m).owner with
  | none =>
    if runWhenFree then
      let (M, panic) := action M
      (M, .after panic .refused)
    else (M, .refused)
  | some _ =>
    let (M, panic) := action (M.setOwner m none)
    ((M.wakeOne (.mutex m)).1, .after panic .released)

/-- Releases a mutex, whoever owns it. -/
def unlock (M : Machine α) (m : MutexId) : Machine α × Release :=
  M.releaseWith m (.ofPanic none) false

/-! ### Adapters -/

/-- Makes a task the owner of a free raw lock. -/
def trySeize (M : Machine α) (r : RawLockId) (h : HandleId) : Machine α × Bool :=
  let s := M.rawLock r
  if s.locked then (M, false)
  else (M.setRawLock r { s with locked := true, owner := some h }, true)

/-- Frees a raw lock and makes the thread ready that parked on it first. -/
def unlockRaw (M : Machine α) (r : RawLockId) : Machine α :=
  let s := M.rawLock r
  match s.parked with
  | [] => M.setRawLock r { s with locked := false }
  | t :: parked => (M.setRawLock r { s with locked := false, parked }).makeReady t

/-- Releases a raw lock if the task owns it; a panic of the action leaves the lock held. -/
def releaseRaw (M : Machine α) (r : RawLockId) (h : HandleId) (action : Action α) :
    Machine α × Release :=
  if (M.rawLock r).owner = some h then
    match action M with
    | (M, some message) => (M, .panicked message)
    | (M, none) => ((M.setRawLock r { M.rawLock r with owner := none }).unlockRaw r, .released)
  else (M, .refused)

/-! ### The interface of locks -/

/-- Whether an owner is somebody else. -/
def isOther (owner : Option HandleId) (h : HandleId) : Bool :=
  owner.any (· != h)

/-- Whether a lock is held by another task, as far as it can tell. -/
def isHeldByOther (M : Machine α) (l : Lockable) (h : HandleId) : Bool :=
  match l with
  | .native m | .wrapped m => isOther (M.mutex m).owner h
  | .minimal _ => false
  | .raw r => isOther (M.rawLock r).owner h

/-- Releases a lock, running the action before anybody can see it free. -/
def exclusiveRelease (M : Machine α) (l : Lockable) (h : HandleId) (action : Action α) :
    Machine α × Release :=
  match l with
  | .native m | .wrapped m | .minimal m => M.releaseWith m action false
  | .raw r => M.releaseRaw r h action

/-- The instruction that acquires a lock. -/
def acquire : Lockable → Instr α
  | .native m | .wrapped m | .minimal m => .lock m
  | .raw r => .seize r

/-- Whether a lock shows the mutex inside. -/
def isNative : Lockable → Bool
  | .native _ => true
  | _ => false

end Machine

end BlockingSync
