/-
One run of a pipeline: the threads move in turn.

In a round every thread gets one chance to move, the main thread first.  While the main
thread is not done some thread can move, so the moves that all threads together have to
make bound the number of rounds.  Whatever the run leads to is reachable.
-/
import BlockingSync.Pipeline.Step

namespace BlockingSync.Pipeline

/-- Whether the main thread has nothing left to do. -/
def State.isOver (s : State) : Bool :=
  match s.main with
  | .done | .failed _ => true
  | _ => false

/-- A run so far. -/
structure Run where
  state : State
  /-- The latest event first. -/
  events : List Event

namespace Run

/-- A thread gets a chance to move. -/
def move (p : Plan) (r : Run) (a : Actor) : Run :=
  match r.state.step p a with
  | none => r
  | some (state, event) => ⟨state, event.toList ++ r.events⟩

/-- Threads get a chance to move in the given order. -/
def moves (p : Plan) (r : Run) (order : List Actor) : Run :=
  order.foldl (move p) r

/-- Rounds in the given order until the main thread is done, at most `fuel` of them. -/
def rounds (p : Plan) (order : List Actor) : Nat → Run → Run
  | 0, r => r
  | fuel + 1, r => if r.state.isOver then r else rounds p order fuel (r.moves p order)

/-- Every run so far leads to a reachable state. -/
def IsReachable (p : Plan) (r : Run) : Prop :=
  Reachable p r.state r.events

variable {p : Plan} {r : Run}

theorem IsReachable.move (h : r.IsReachable p) (a : Actor) : (r.move p a).IsReachable p := by
  unfold Run.move
  cases hs : r.state.step p a with
  | none => exact h
  | some next => exact Reachable.step a h hs

theorem IsReachable.moves (h : r.IsReachable p) (order : List Actor) :
    (r.moves p order).IsReachable p := by
  induction order generalizing r with
  | nil => exact h
  | cons a order ih => exact ih (h.move a)

theorem IsReachable.rounds (h : r.IsReachable p) (order : List Actor) (fuel : Nat) :
    (r.rounds p order fuel).IsReachable p := by
  induction fuel generalizing r with
  | zero => exact h
  | succ fuel ih =>
      unfold Run.rounds
      split
      · exact h
      · exact ih (h.moves order)

end Run

namespace Plan

/-- The threads in the order in which they move in a round. -/
def actors (p : Plan) : List Actor :=
  .main :: (List.range p.producers).map .producer ++ (List.range p.consumers).map .consumer

/-- A bound on the number of rounds: a number is added, taken, summed and counted, and each
thread is started and stopped. -/
def effort (p : Plan) : Nat :=
  4 * (p.producers * p.share + p.producers + p.consumers + 10)

/-- The run in which the threads move in turn. -/
def run (p : Plan) : Run :=
  Run.rounds p p.actors p.effort ⟨.initial, []⟩

theorem run_isReachable (p : Plan) : p.run.IsReachable p :=
  Run.IsReachable.rounds (r := ⟨.initial, []⟩) .initial p.actors p.effort

end Plan

end BlockingSync.Pipeline
