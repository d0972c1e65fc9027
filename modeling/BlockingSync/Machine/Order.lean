/-
Orders: what a thread is told between steps.

A thread is given a list of operations, or told to exit.  A step begins with one order,
and is over when no thread is ready.
-/
import BlockingSync.Machine.Schedule

namespace BlockingSync

/-- How a task is doing between steps. -/
inductive Status where
  | idle
  | blocked
  | exited

namespace Machine

variable {α : Type}

/-- How a thread is doing when no thread is ready. -/
def status (M : Machine α) (t : ThreadId) : Status :=
  let s := M.thread t
  if s.exited then .exited
  else if s.code.isEmpty && s.pending.isEmpty then .idle
  else .blocked

/-- Ends a thread; its handle is terminated. -/
def exit (M : Machine α) (t : ThreadId) : Machine α :=
  (M.setThread t { M.thread t with exited := true }).setHandle t
    { M.handle t with terminated := true }

/-- Gives a thread a list of operations and makes it ready. -/
def give (M : Machine α) (t : ThreadId) (step : Nat) (ops : List (Op α)) : Machine α :=
  let s := { M.thread t with code := [], pending := ops.zipIdx.map Prod.swap, step }
  (M.setThread t s).makeReady t

/-- Takes an order: a list of operations, or none to exit.  The log starts anew. -/
def begin (M : Machine α) (t : ThreadId) (step : Nat) : Option (List (Op α)) → Machine α
  | none => { M.exit t with log := [] }
  | some ops => { M with log := [] }.give t step ops

/-- Carries out an order, and lets the threads run until none is ready. -/
def obey (M : Machine α) (t : ThreadId) (step : Nat) (ops : Option (List (Op α))) : Machine α :=
  (M.begin t step ops).run

end Machine

end BlockingSync
