/-
A pipeline of producers and consumers around one bounded queue.

Each producer adds its share of the numbers below the total.  Consumers take numbers,
add them up and count them; whoever counts the last one announces that under a lock.
The main thread starts everybody, raises the bound, waits for the announcement, sends
every consumer a stop mark, and finally keeps a snapshot of the queue and restores it.

Here a queue operation is one stroke that a thread makes when it need not block.  The
lock and the condition variable of the announcement are modelled step by step.
-/
import BlockingSync.Error.Basic
import BlockingSync.Record.Basic

namespace BlockingSync.Pipeline

/-- The size of a pipeline. -/
structure Plan where
  producers : Nat
  consumers : Nat
  /-- How many numbers each producer adds. -/
  share : Nat

/-- The mark that stops a consumer. -/
def stopMark : Word := 18446744073709551615

namespace Plan

/-- How many numbers all producers add. -/
def total (p : Plan) : Word :=
  .wrap (p.producers * p.share)

/-- The number that a producer adds after `sent` others. -/
def number (p : Plan) (producer sent : Nat) : Word :=
  .wrap (producer * p.share + sent)

end Plan

/-- A thread of the pipeline. -/
inductive Actor where
  | main
  | producer (id : Nat)
  | consumer (id : Nat)
  deriving DecidableEq

/-- What a consumer does next. -/
inductive ConsumerStage where
  /-- Take the first number of the queue. -/
  | take
  /-- Add a number to the sum. -/
  | sum (number : Word)
  /-- Count the number just added. -/
  | count
  /-- Acquire the lock, since the number was the last one. -/
  | lock
  /-- Wake whoever waits for the announcement. -/
  | announce
  /-- Release the lock. -/
  | unlock
  /-- Nothing: a stop mark was taken. -/
  | stopped
  deriving DecidableEq

/-- What the main thread does next. -/
inductive MainStage where
  | startConsumers
  | startProducers
  | raiseBound
  /-- Note how many threads are blocked on the queue. -/
  | lookAround
  /-- Wait until all producers are done. -/
  | joinProducers
  /-- Acquire the lock. -/
  | lock
  /-- Look whether all numbers are counted. -/
  | check
  /-- Release the lock and fall asleep, in one stroke. -/
  | depart
  /-- Wait for the announcement. -/
  | asleep
  /-- Acquire the lock again. -/
  | relock
  /-- Release the lock. -/
  | unlock
  /-- Read the sum and the count. -/
  | readTotals
  /-- Send that many more stop marks. -/
  | sendStops (left : Nat)
  /-- Wait until all consumers have stopped. -/
  | joinConsumers
  /-- Add the remaining ones of the numbers that the snapshot is to hold. -/
  | leave (left : List Nat)
  | keepSnapshot
  | clear (snapshot : String)
  | restore (snapshot : String)
  | done
  /-- Nothing: the error ends the run. -/
  | failed (e : SyncError)
  deriving DecidableEq

/-- The state of a pipeline. -/
structure State where
  values : List Word := []
  /-- The bound of the queue. -/
  capacity : Word
  /-- The thread that holds the lock. -/
  holder : Option Actor := none
  /-- How many numbers were counted. -/
  counted : Word := .wrap 0
  /-- The sum of the numbers. -/
  checksum : Word := .wrap 0
  main : MainStage := .startConsumers
  /-- The consumers started so far. -/
  consumers : List ConsumerStage := []
  /-- How many numbers each of the producers started so far has added. -/
  producers : List Nat := []
  deriving DecidableEq

/-- The bound that the queue starts with. -/
def startBound : Word := .wrap 8

/-- The bound that the queue is given in mid-run. -/
def raisedBound : Word := .wrap 32

/-- The numbers that the snapshot is to hold. -/
def leftovers : List Nat := [0, 1, 2]

/-- Before anything has happened. -/
def State.initial : State :=
  { capacity := startBound }

/-- Something worth noting about a step. -/
inductive Event where
  /-- A consumer took a number or a stop mark. -/
  | took (consumer : Nat) (v : Word)
  /-- The bound was raised, which added that many slots. -/
  | boundSet (capacity : Word) (added : Nat)
  /-- That many threads were blocked on the queue. -/
  | lookedAround (blocked : Nat)
  /-- The wait for the announcement was refused. -/
  | waitFailed (e : SyncError)
  /-- The main thread has gone on after the announcement. -/
  | totals (counted checksum : Word)
  | snapshotKept (snapshot : String)
  | snapshotRestored (capacity : Word) (length : Nat)
  deriving DecidableEq

end BlockingSync.Pipeline
