/-
Scenarios: tasks, objects, and what the tasks are told to do, step by step.

In a step one task is given a list of operations, or is told to exit.  A task that has
not finished its last list, or has exited, takes no further ones.  The report of a step
is taken when no task is ready any more.
-/
import BlockingSync.Machine.Build
import BlockingSync.Machine.Order
import BlockingSync.Record.JsonForm

namespace BlockingSync

/-- Where a queue comes from. -/
inductive QueueSource where
  /-- The text of a record. -/
  | restored (text : String)
  /-- A bound, zero for none, and storage settings. -/
  | configured (capacity : Word) (config : Config)
  | bounded (capacity : Word)
  | unbounded

/-- The bound, the values and the storage settings that a queue starts with. -/
def QueueSource.open : QueueSource → Except SyncError (Record Json × Config)
  | .restored text => do
    return (← Record.ofJsonText (Json.reader (Json.depthLimit - 1)) text, {})
  | .configured capacity config => .ok (⟨capacity, []⟩, config)
  | .bounded ⟨0, _⟩ => .error Machine.zeroCapacity
  | .bounded capacity => .ok (⟨capacity, []⟩, {})
  | .unbounded => .ok (⟨⟨0, by decide⟩, []⟩, {})

/-- An object to be made. -/
inductive Spec where
  | mutex (config : Config)
  | condition (config : Config)
  | queue (source : QueueSource)
  | adapter
  | wrapped
  | minimal
  | task
  | tasks (config : Config)

/-- What a task is told to do. -/
inductive Order where
  | run (ops : List (Op Json))
  | exit

/-- A whole scenario. -/
structure Scenario where
  tasks : List String
  objects : List (String × Spec)
  steps : List (String × Order)

/-- Why a task does not take an order. -/
inductive Obstacle where
  | blocked
  | exited

/-- What an observer sees of a step. -/
inductive Report where
  | skipped (obstacle : Obstacle)
  | ran (log : List (Entry Json)) (tasks : List (String × Status))
      (objects : List (String × View Json))

/-- What an observer sees of a scenario. -/
structure Outcome where
  /-- The objects that could not be made. -/
  failures : List (String × SyncError)
  reports : List Report
  /-- The names of the handles, by their numbers. -/
  handleNames : List String

namespace Machine

/-- Makes an object, unless it cannot be made. -/
def make (M : Machine Json) (name : String) : Spec → Except SyncError (Machine Json)
  | .mutex config =>
    let (M, m) := M.addMutex config
    .ok (M.bind name (.mutex m))
  | .condition config =>
    let (M, c) := M.addCondition config
    .ok (M.bind name (.condition c))
  | .queue source => do
    let (r, config) ← source.open
    let (M, q) := M.addQueue config r
    return M.bind name (.queue q)
  | .adapter =>
    let (M, r) := M.addRawLock
    .ok (M.bind name (.adapter r))
  | .wrapped =>
    let (M, m) := M.addMutex {}
    .ok (M.bind name (.wrapped m))
  | .minimal =>
    let (M, m) := M.addMutex {}
    .ok (M.bind name (.minimal m))
  | .task =>
    let (M, h) := M.addHandle name
    .ok (M.bind name (.task h))
  | .tasks config =>
    let (M, l) := M.addTaskList config
    .ok (M.bind name (.tasks l))

/-- Makes objects in order; yields those that could not be made. -/
def makeAll (M : Machine Json) : List (String × Spec) → Machine Json × List (String × SyncError)
  | [] => (M, [])
  | (name, spec) :: specs =>
    match M.make name spec with
    | .ok M => M.makeAll specs
    | .error e =>
      let (M, failures) := M.makeAll specs
      (M, (name, e) :: failures)

/-- What an observer sees when no thread is ready. -/
def report (M : Machine Json) : Report :=
  .ran M.log ((M.handleNames.take M.threads.size).mapIdx fun t name => (name, M.status t)) M.views

end Machine

/-- The operations of an order; none for an exit. -/
def Order.ops? : Order → Option (List (Op Json))
  | .run ops => some ops
  | .exit => none

namespace Scenario

/-- Performs a step. -/
def step (M : Machine Json) (index : Nat) (task : String) (order : Order) :
    Machine Json × Report :=
  match M.thread? task with
  | none => (M, .skipped .exited)
  | some t =>
    match M.status t with
    | .blocked => (M, .skipped .blocked)
    | .exited => (M, .skipped .exited)
    | .idle =>
      let M := M.obey t index order.ops?
      (M, M.report)

/-- Performs steps in order, the first of which has the given index. -/
def performFrom (M : Machine Json) (index : Nat) : List (String × Order) → List Report
  | [] => []
  | (task, order) :: orders =>
    let (M, report) := step M index task order
    report :: performFrom M (index + 1) orders

/-- The machine in which a scenario starts, and the objects that could not be made. -/
def start (s : Scenario) : Machine Json × List (String × SyncError) :=
  (Machine.ofTasks s.tasks).makeAll s.objects

/-- Plays a scenario. -/
def play (s : Scenario) : Outcome :=
  let (M, failures) := s.start
  ⟨failures, performFrom M 0 s.steps, M.handleNames⟩

end Scenario

end BlockingSync
