/-
Scripts: sequences of operations on one wait list, with all that each of them shows.

A script is run from an empty list.  Every step yields its result and a snapshot of
the list after it.
-/
import BlockingSync.WaitList.Basic
import BlockingSync.Text.Quoted

namespace BlockingSync.WaitList

variable {α : Type}

/-- An operation on a wait list. -/
inductive Step (α : Type) where
  | push (v : α)
  | shift
  | clear
  | extend (vs : List α)
  /-- Take at most `limit` entries, or all of them, from a draining iterator. -/
  | drain (limit : Option Nat)
  /-- Look at the entries after the first `skip`, and once more beyond the end. -/
  | iterate (skip : Nat)
  /-- Show the entries as text. -/
  | display
  | unknown

/-- What an operation yields. -/
inductive Outcome (α : Type) where
  | done
  | entry (v : Option α)
  /-- The entries taken, and how many the iterator promised before and after. -/
  | drained (taken : List α) (before after : Nat)
  /-- The entries seen, and what the exhausted iterator yields next. -/
  | seen (entries : List α) (beyond : Option α)
  | shown (text : String)
  | badStep

/-- The list as its observers see it. -/
structure Snapshot (α : Type) where
  length : Nat
  isEmpty : Bool
  pooled : Nat
  entries : List α

/-- The entries in brackets. -/
def display (render : α → String) (l : WaitList α) : String :=
  "[" ++ ", ".intercalate (l.toVec.map render) ++ "]"

def snapshot (l : WaitList α) : Snapshot α :=
  ⟨l.length, l.isEmpty, l.pooled, l.toVec⟩

/-- Performs one step. -/
def perform (render : α → String) (l : WaitList α) : Step α → WaitList α × Outcome α
  | .push v => (l.push v, .done)
  | .shift =>
    match l.shift? with
    | some (v, rest) => (rest, .entry (some v))
    | none => (l, .entry none)
  | .clear => (l.clear, .done)
  | .extend vs => (l.append vs, .done)
  | .drain limit =>
    let (taken, rest) := l.drain (limit.getD l.length)
    (rest, .drained taken l.length rest.length)
  | .iterate skip =>
    let (entries, beyond) := l.iterate skip
    (l, .seen entries beyond)
  | .display => (l, .shown (l.display render))
  | .unknown => (l, .badStep)

/-- Performs the steps in order, with a snapshot after each. -/
def run (render : α → String) (l : WaitList α) : List (Step α) → List (Outcome α × Snapshot α)
  | [] => []
  | s :: steps =>
    let (l, outcome) := perform render l s
    (outcome, l.snapshot) :: run render l steps

end BlockingSync.WaitList
