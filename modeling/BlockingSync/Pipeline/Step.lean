/-
What each thread of a pipeline does when it moves.

A thread that is blocked, or has nothing left to do, cannot move.  Any order in which
threads that can move do so is a run of the pipeline.
-/
import BlockingSync.Pipeline.State
import BlockingSync.Record.JsonForm

namespace BlockingSync.Pipeline

namespace State

/-! ### The queue -/

/-- Whether a value cannot be added now. -/
def isFull (s : State) : Bool :=
  0 < s.capacity.val && s.capacity.val ≤ s.values.length

/-- Adds a value at the end, unless the queue is full. -/
def add? (s : State) (v : Word) : Option State :=
  if s.isFull then none else some { s with values := s.values ++ [v] }

/-- How many threads cannot go on because of the queue. -/
def blocked (p : Plan) (s : State) : Nat :=
  (if s.isFull then s.producers.countP (· < p.share) else 0) +
    (if s.values.isEmpty then s.consumers.count .take else 0)

/-! ### The threads -/

/-- A producer adds its next number. -/
def stepProducer (p : Plan) (s : State) (id : Nat) : Option State :=
  match s.producers[id]? with
  | none => none
  | some sent =>
    if sent < p.share then
      (s.add? (p.number id sent)).map fun s =>
        { s with producers := s.producers.set id (sent + 1) }
    else none

/-- Moves a consumer to another stage. -/
def setConsumer (s : State) (id : Nat) (stage : ConsumerStage) : State :=
  { s with consumers := s.consumers.set id stage }

/-- A sleeping main thread is woken by an announcement. -/
def announce (s : State) : State :=
  { s with main := if s.main = .asleep then .relock else s.main }

/-- A consumer moves. -/
def stepConsumer (p : Plan) (s : State) (id : Nat) : Option (State × Option Event) :=
  match s.consumers[id]? with
  | none | some .stopped => none
  | some .take =>
    match s.values with
    | [] => none
    | v :: values =>
      let stage := if v = stopMark then .stopped else .sum v
      some ({ s with values }.setConsumer id stage, some (.took id v))
  | some (.sum v) => some ({ s with checksum := s.checksum + v }.setConsumer id .count, none)
  | some .count =>
    let counted := s.counted + .wrap 1
    let stage := if counted = p.total then .lock else .take
    some ({ s with counted }.setConsumer id stage, none)
  | some .lock =>
    if s.holder.isSome then none
    else some ({ s with holder := some (.consumer id) }.setConsumer id .announce, none)
  | some .announce => some (s.announce.setConsumer id .unlock, none)
  | some .unlock => some ({ s with holder := none }.setConsumer id .take, none)

/-- What is kept of the queue. -/
def snapshot (s : State) : Except SyncError String :=
  Record.jsonText (s := .unsigned .w64) ⟨s.capacity, s.values⟩

/-- The main thread falls asleep if it holds the lock.  A wait without the lock is over at once,
and one with the lock of another is refused. -/
def depart (s : State) : State × Option Event :=
  match s.holder with
  | some .main => ({ s with holder := none, main := .asleep }, none)
  | none => ({ s with main := .check }, none)
  | some _ => ({ s with main := .unlock }, some (.waitFailed .ownership))

/-- The main thread moves. -/
def stepMain (p : Plan) (s : State) : Option (State × Option Event) :=
  let go := fun (main : MainStage) (s : State) => some ({ s with main }, none)
  match s.main with
  | .startConsumers =>
    if s.consumers.length < p.consumers then
      go .startConsumers { s with consumers := s.consumers ++ [.take] }
    else go .startProducers s
  | .startProducers =>
    if s.producers.length < p.producers then
      go .startProducers { s with producers := s.producers ++ [0] }
    else go .raiseBound s
  | .raiseBound =>
    some ({ s with capacity := raisedBound, main := .lookAround },
      some (.boundSet raisedBound (raisedBound.val - s.capacity.val)))
  | .lookAround => some ({ s with main := .joinProducers }, some (.lookedAround (s.blocked p)))
  | .joinProducers => if s.producers.all (p.share ≤ ·) then go .lock s else none
  | .lock => if s.holder.isSome then none else go .check { s with holder := some .main }
  | .check => go (if s.counted < p.total then .depart else .unlock) s
  | .depart => some s.depart
  | .asleep => none
  | .relock => if s.holder.isSome then none else go .check { s with holder := some .main }
  | .unlock => go .readTotals { s with holder := none }
  | .readTotals =>
    some ({ s with main := .sendStops p.consumers }, some (.totals s.counted s.checksum))
  | .sendStops 0 => go .joinConsumers s
  | .sendStops (left + 1) => (s.add? stopMark).bind (go (.sendStops left))
  | .joinConsumers => if s.consumers.all (· = .stopped) then go (.leave leftovers) s else none
  | .leave [] => go .keepSnapshot s
  | .leave (n :: left) => (s.add? (.wrap n)).bind (go (.leave left))
  | .keepSnapshot =>
    match s.snapshot with
    | .ok text => some ({ s with main := .clear text }, some (.snapshotKept text))
    | .error e => go (.failed e) s
  | .clear text => go (.restore text) { s with values := [] }
  | .restore text =>
    match Record.ofJsonText (Json.unsignedReader .w64) text with
    | .ok r =>
      some ({ s with main := .done }, some (.snapshotRestored r.capacity r.values.length))
    | .error e => go (.failed e) s
  | .done | .failed _ => none

/-- A thread moves, if it can. -/
def step (p : Plan) (s : State) : Actor → Option (State × Option Event)
  | .main => s.stepMain p
  | .producer id => (s.stepProducer p id).map (·, none)
  | .consumer id => s.stepConsumer p id

end State

/-- The states and events that runs of a pipeline lead to, the latest event first. -/
inductive Reachable (p : Plan) : State → List Event → Prop
  | initial : Reachable p .initial []
  | step {s s' : State} {events : List Event} {event : Option Event} (a : Actor) :
      Reachable p s events → s.step p a = some (s', event) →
      Reachable p s' (event.toList ++ events)

end BlockingSync.Pipeline
