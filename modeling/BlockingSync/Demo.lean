/-
A program that shows the primitives at work.

Its arguments give the size of a pipeline, and its environment the storage settings and
what the log tells.  It runs the pipeline and logs how that goes.
-/
import BlockingSync.Config.Environment
import BlockingSync.Log.Filter
import BlockingSync.Machine.Telling
import BlockingSync.Pipeline.Run

namespace BlockingSync.Demo

/-! ### Arguments -/

/-- Why the pipeline is not started. -/
inductive Complaint where
  | notANumber (index : Nat) (raw : String) (fault : Text.NumberFault)
  | noConsumers

/-- The text that tells why. -/
def Complaint.message : Complaint → String
  | .notANumber index raw fault =>
    s!"Error: argument {index} must be a number, got {Text.quoted raw}\n\n" ++
      s!"Caused by:\n    {fault.message}\n"
  | .noConsumers => "Error: at least one consumer is required\n"

/-- The number that the argument with an index gives, the first of which has index 1. -/
def argument (arguments : List String) (index : Nat) (otherwise : Nat) : Except Complaint Nat :=
  match arguments[index - 1]? with
  | none => .ok otherwise
  | some raw =>
    match Text.readUnsigned Text.wordLimit raw.toList with
    | .ok n => .ok n
    | .error fault => .error (.notANumber index raw fault)

/-- The size of the pipeline.  Every number has a default, and further arguments do not
matter. -/
def plan (arguments : List String) : Except Complaint Pipeline.Plan := do
  let producers ← argument arguments 1 4
  let consumers ← argument arguments 2 2
  let share ← argument arguments 3 1000
  if consumers = 0 then .error .noConsumers else return { producers, consumers, share }

/-! ### Environment -/

/-- The variables that matter, as far as they are set. -/
structure Environment where
  filter : Option String := none
  traceJson : Option String := none
  avoidPools : Option String := none
  preallocate : Option String := none

namespace Environment

/-- The variable that says which events are told. -/
def filterVariable : String := "RUST_LOG"

/-- The variable that has events told as JSON. -/
def traceJsonVariable : String := "FASTSYNC_TRACE_JSON"

/-- The environment in which variables have the given values. -/
def ofLookup (value : String → Option String) : Environment :=
  { filter := value filterVariable
    traceJson := value traceJsonVariable
    avoidPools := value Config.avoidPoolsVariable
    preallocate := value Config.preallocateVariable }

/-- Whether events are told as JSON. -/
def asJson (env : Environment) : Bool :=
  env.traceJson = some "1" || env.traceJson = some "true"

/-- The storage settings, and what was ignored on the way. -/
def config (env : Environment) : Config × Option Config.Ignored :=
  let bytes := fun (value : String) => Text.Utf8.encode value.toList
  Config.fromEnvironment (env.avoidPools.map bytes) (env.preallocate.map bytes)

end Environment

/-! ### Events -/

/-- The part of the library that the program is. -/
def target : String := "fastsync_demo"

/-- The log is ready. -/
def logReady (asJson : Bool) : Log.Event :=
  { level := .info
    target := "fastsync::monitoring::tracer"
    message := "Structured tracing initialized"
    fields := [("json", .boolean asJson)] }

/-- The pipeline is about to start. -/
def starting (p : Pipeline.Plan) (config : Config) : Log.Event :=
  { level := .info
    target
    message := "Starting pipeline"
    fields := [("producers", .integer p.producers), ("consumers", .integer p.consumers),
      ("per_producer", .integer p.share), ("node_pooling", .boolean config.nodePooling)] }

/-- What the log tells of an event of the pipeline. -/
def told : Pipeline.Event → Option Log.Event
  | .took .. => none
  | .boundSet capacity added => some (.boundSet capacity.val added)
  | .lookedAround blocked => some {
      level := .info
      target
      message := s!"Raised queue capacity to {Pipeline.raisedBound.val}"
      fields := [("waiting", .integer blocked)] }
  | .waitFailed e => some {
      level := .warn
      target
      message := "Completion wait failed"
      fields := [("error", .text e.message)] }
  | .totals counted checksum => some {
      level := .info
      target
      message := "All items consumed"
      fields := [("consumed", .integer counted.val), ("checksum", .integer checksum.val)] }
  | .snapshotKept text => some {
      level := .info
      target
      message := "Persisted queue snapshot"
      fields := [("record", .text text)] }
  | .snapshotRestored capacity length => some {
      level := .info
      target
      message := "Restored queue from snapshot"
      fields := [("capacity", .integer capacity.val), ("len", .integer length)] }

/-! ### The program -/

/-- What comes of the program. -/
structure Outcome where
  /-- Zero if all went well. -/
  exitCode : Nat
  /-- What is complained about. -/
  complaint : String
  /-- The events that are told. -/
  events : List Log.Event
  /-- Whether they are told as JSON. -/
  asJson : Bool

/-- Everything that happens before the filter: the exit code, the complaint, and all events. -/
def perform (arguments : List String) (env : Environment) : Nat × String × List Log.Event :=
  let ready := logReady env.asJson
  match plan arguments with
  | .error complaint => (1, complaint.message, [ready])
  | .ok p =>
    let (config, ignored) := env.config
    let r := p.run
    let events := ready :: (ignored.map (·.event)).toList ++
      starting p config :: r.events.reverse.filterMap told
    match r.state.main with
    | .failed e => (1, s!"Error: {e.message}\n", events)
    | _ => (0, "", events)

/-- Runs the program. -/
def run (arguments : List String) (env : Environment) : Outcome :=
  let (exitCode, complaint, events) := perform arguments env
  let filter := Log.Filter.ofVariable env.filter
  { exitCode, complaint, events := events.filter filter.admits, asJson := env.asJson }

namespace Outcome

/-- The name of the thread that logs. -/
def thread : String := "main"

/-- The lines of the log. -/
def log (o : Outcome) : String :=
  String.join (o.events.map fun e =>
    (if o.asJson then (e.toJson thread).compact else e.plainText thread) ++ "\n")

end Outcome

end BlockingSync.Demo
