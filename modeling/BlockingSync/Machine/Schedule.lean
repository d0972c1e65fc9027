/-
The schedule: which thread does what next, and when a step is over.

`tick` lets the running thread do one instruction.  A step is over when no thread is
ready.  Threads can wake one another only by getting on with their operations, so the
work that is left bounds the number of ticks (`effort`).
-/
import BlockingSync.Machine.Perform

namespace BlockingSync.Machine

variable {α : Type}

/-- Lets a thread do an instruction. -/
def execute (M : Machine α) (t : ThreadId) : Instr α → Machine α × Next α
  | .start path op => M.perform t path op
  | .lock m =>
    match M.tryLock m t with
    | (M, true) => (M, .goOn [])
    | (M, false) => (M.enqueue (.mutex m) t, .goOn [.suspend t (some (.mutex m)), .lock m])
  | .unlock m => ((M.unlock m).1, .goOn [])
  | .closeGuard m path =>
    let beforeDrop := (M.mutex m).owner.isSome
    (M, .goOn [.unlock m, .report path (.guarded true beforeDrop)])
  | .seize r =>
    match M.trySeize r t with
    | (M, true) => (M, .goOn [])
    | (M, false) =>
      (M.setRawLock r { M.rawLock r with parked := (M.rawLock r).parked ++ [t] }, .park)
  | .suspend h _ =>
    let s := M.handle h
    if s.notified then (M.setHandle h { s with notified := false }, .goOn [])
    else (M.setHandle h { s with parked := s.parked ++ [t] }, .park)
  | .transact q path transaction => M.transact t q path transaction
  | .report path result => (M.note (.finished t (M.thread t).step path result), .goOn [])

/-- What must still be done when an operation is given up: the mutexes held by the bodies
around it are released, innermost first. -/
def cleanup : List (Instr α) → List (Instr α)
  | [] => []
  | .unlock m :: code | .closeGuard m _ :: code => .unlock m :: cleanup code
  | _ :: code => cleanup code

/-- Lets the running thread do its next instruction, or begin its next operation, or end. -/
def tick (M : Machine α) : Machine α :=
  match M.ready with
  | [] => M
  | t :: others =>
    let s := M.thread t
    match s.code, s.pending with
    | [], [] => { M with ready := others }
    | [], (i, op) :: pending => M.setThread t { s with code := [.start [i] op], pending, top := i }
    | instr :: code, _ =>
      match M.execute t instr with
      | (M, .goOn more) => M.setCode t (more ++ code)
      | (M, .park) => { M with ready := M.ready.tail }
      | (M, .unwind message) => M.setCode t (cleanup code ++ [.report [s.top] (.panicked message)])

/-- Ticks until no thread is ready, at most `fuel` times. -/
def settle : Nat → Machine α → Machine α
  | 0, M => M
  | fuel + 1, M => if M.ready.isEmpty then M else settle fuel M.tick

/-! ### How long a step can take -/

mutual

/-- The instructions that an operation can get done, and some more. -/
def opWork : Op α → Nat
  | .synchronize _ body | .guard _ body => 8 + bodyWork body
  | _ => 8

/-- The same for the operations of a body. -/
def bodyWork : List (Op α) → Nat
  | [] => 0
  | op :: body => opWork op + bodyWork body

end

/-- The same for an instruction. -/
def instrWork : Instr α → Nat
  | .start _ op => opWork op
  | .transact .. => 4
  | _ => 2

/-- What a thread can still get done. -/
def threadWork (s : Thread α) : Nat :=
  s.code.foldr (instrWork · + ·) 0 + s.pending.foldr (fun (_, op) work => opWork op + 1 + work) 0

/-- What all threads can still get done. -/
def work (M : Machine α) : Nat :=
  M.threads.cells.foldr (threadWork · + ·) 0

/-- A bound on the number of ticks until no thread is ready.  Whenever an instruction gets
something done, it readies each thread at most once, and a thread that gets nothing done
stops after a few instructions. -/
def effort (M : Machine α) : Nat :=
  16 * (M.work + 1) * (M.threads.size + 1)

/-- Lets the ready threads run until none is left. -/
def run (M : Machine α) : Machine α :=
  settle M.effort M

end BlockingSync.Machine
