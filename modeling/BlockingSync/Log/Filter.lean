/-
Which events are told.

A filter is a list of directives, written with commas between them.  Of the directives that
are about an event, the most specific one decides.  Events here happen in no span, so a
directive that names one decides nothing.
-/
import BlockingSync.Log.Directive

namespace BlockingSync.Log

/-- A filter. -/
abbrev Filter := List Directive

namespace Filter

/-- The pieces of a text between commas, without the empty ones. -/
def pieces (text : String) : List (List Char) :=
  ((text.splitOn ",").map String.toList).filter (!·.isEmpty)

/-- The filter that a text writes.  Without directives only errors are told. -/
def ofText? (text : String) : Option Filter := do
  match ← (pieces text).mapM Directive.ofText? with
  | [] => return [{ limit := .upTo .error }]
  | directives => return directives

/-- The filter for the value of a variable: up to `info` if it is not set or cannot be read. -/
def ofVariable (value : Option String) : Filter :=
  (value.bind ofText?).getD [{ limit := .upTo .info }]

/-- The most specific of the directives that are about an event; of two equally specific ones
the later. -/
def deciding? (f : Filter) (e : Event) : Option Directive :=
  (f.filter fun d => d.isStatic && d.isAbout e).foldl
    (fun best d =>
      match best with
      | none => some d
      | some b => some (if d.isAsSpecific b then d else b))
    none

/-- Whether an event is told. -/
def admits (f : Filter) (e : Event) : Bool :=
  (f.deciding? e).any (·.limit.admits e.level)

end Filter

end BlockingSync.Log
