/-
Waking tasks.

A wake of a task that has terminated fails and wakes nobody.  Whoever wakes one waiter
therefore takes waiters out until one of them can be resumed; whoever wakes all takes
all out first.  A waiter that cannot be resumed leaves a line in the log.
-/
import BlockingSync.Machine.State

namespace BlockingSync.Machine

variable {α : Type}

/-- Notifies a task and unparks one of the threads parked on its handle; nothing happens to a
task that has terminated. -/
def resume? (M : Machine α) (h : HandleId) : Option (Machine α) :=
  let s := M.handle h
  if s.terminated then none
  else
    match s.parked with
    | [] => some (M.setHandle h { s with notified := true })
    | t :: parked => some ((M.setHandle h { s with notified := true, parked }).makeReady t)

/-- Resumes a waiter, or notes that it cannot be resumed. -/
def tryResume (M : Machine α) (h : HandleId) : Machine α × Bool :=
  match M.resume? h with
  | some M => (M, true)
  | none => (M.note (.skipped h), false)

/-- Takes at most `count` waiters out until one of them is resumed. -/
def wakeOneOf (p : Place) : Nat → Machine α → Machine α × Option HandleId
  | 0, M => (M, none)
  | count + 1, M =>
    match (M.waiters p).shift? with
    | none => (M, none)
    | some (h, rest) =>
      match (M.setWaiters p rest).tryResume h with
      | (M, true) => (M, some h)
      | (M, false) => wakeOneOf p count M

/-- Resumes the earliest waiter that can be resumed; those before it are taken out too. -/
def wakeOne (M : Machine α) (p : Place) : Machine α × Option HandleId :=
  wakeOneOf p (M.waiters p).length M

/-- Wakes one waiter a number of times. -/
def wakeTimes (p : Place) : Nat → Machine α → Machine α
  | 0, M => M
  | count + 1, M => wakeTimes p count (M.wakeOne p).1

/-- Wakes one waiter up to `count` times.  Every wake takes a waiter out if there is one, so
further wakes than there are waiters find nobody. -/
def wakeMany (M : Machine α) (p : Place) (count : Nat) : Machine α :=
  wakeTimes p (min count (M.waiters p).length) M

/-- Resumes tasks in order; yields how many of them could be resumed. -/
def resumeAll (M : Machine α) : List HandleId → Machine α × Nat
  | [] => (M, 0)
  | h :: hs =>
    let (M, resumed) := M.tryResume h
    let (M, count) := M.resumeAll hs
    (M, if resumed then count + 1 else count)

/-- Takes all waiters out and resumes them in order. -/
def wakeAll (M : Machine α) (p : Place) : Machine α × Nat :=
  let (hs, rest) := (M.waiters p).drainAll
  (M.setWaiters p rest).resumeAll hs

end BlockingSync.Machine
