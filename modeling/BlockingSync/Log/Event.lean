/-
What the log tells.

An event has a level, the part of the library that it comes from, a sentence, and
named values.  The levels are ordered from the gravest to the most detailed; a threshold
lets everything through up to a level.
-/
import BlockingSync.Json.Basic
import BlockingSync.Text.Unsigned

namespace BlockingSync.Log

/-- How important an event is. -/
inductive Level where
  | error
  | warn
  | info
  | debug
  | trace
  deriving DecidableEq

namespace Level

/-- The place of a level, the gravest first. -/
def rank : Level → Nat
  | .error => 1
  | .warn => 2
  | .info => 3
  | .debug => 4
  | .trace => 5

/-- The name of a level. -/
def word : Level → String
  | .error => "ERROR"
  | .warn => "WARN"
  | .info => "INFO"
  | .debug => "DEBUG"
  | .trace => "TRACE"

end Level

/-- How much detail is wanted. -/
inductive Threshold where
  /-- Nothing at all. -/
  | off
  | upTo (level : Level)
  deriving DecidableEq

namespace Threshold

/-- Whether events of a level pass. -/
def admits (limit : Threshold) (level : Level) : Bool :=
  match limit with
  | .off => false
  | .upTo most => level.rank ≤ most.rank

/-- All thresholds, from the strictest. -/
def all : List Threshold :=
  [.off, .upTo .error, .upTo .warn, .upTo .info, .upTo .debug, .upTo .trace]

/-- The name of a threshold. -/
def word : Threshold → String
  | .off => "OFF"
  | .upTo level => level.word

/-- The threshold that a text names, by its place in the list of all or by its name in letters
of either case. -/
def ofText? (cs : List Char) : Option Threshold :=
  match Text.readUnsigned Text.wordLimit cs with
  | .ok n => all[n]?
  | .error _ => all.find? fun limit => limit.word.toList == cs.map Char.toUpper

end Threshold

/-- Something that the log tells. -/
structure Event where
  level : Level
  /-- The part of the library that the event comes from. -/
  target : String
  message : String
  fields : List (String × Json)

namespace Event

/-- The named values, the sentence among them. -/
def allFields (e : Event) : List (String × Json) :=
  ("message", .text e.message) :: e.fields

/-- Whether an event has a value with the given name. -/
def hasField (e : Event) (name : String) : Bool :=
  e.allFields.any fun (key, _) => key = name

/-- A value as it stands in a line of text. -/
def plainValue : Json → String
  | .text s => s
  | v => v.compact

/-- An event of the thread with the given name as a line of text. -/
def plainText (e : Event) (thread : String) : String :=
  let values := e.fields.map fun (key, v) => " " ++ key ++ "=" ++ plainValue v
  e.level.word ++ " " ++ thread ++ " " ++ e.target ++ ": " ++ e.message ++ String.join values

/-- An event of the thread with the given name as a JSON object. -/
def toJson (e : Event) (thread : String) : Json :=
  .object [("level", .text e.level.word), ("fields", .object e.allFields),
    ("target", .text e.target), ("threadName", .text thread)]

end Event

end BlockingSync.Log
