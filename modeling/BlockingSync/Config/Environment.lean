/-
The storage settings that an environment asks for.

Two variables matter.  One turns pooling off, the other gives the number of cells to
reserve.  A value that is no text counts as absent; a number that cannot be read is
reported and counts as absent too.
-/
import BlockingSync.Config
import BlockingSync.Log.Event
import BlockingSync.Text.Blank
import BlockingSync.Text.Utf8

namespace BlockingSync.Config

/-- The variable that turns pooling off. -/
def avoidPoolsVariable : String := "FASTSYNC_AVOID_MEM_POOLS"

/-- The variable that gives the number of cells to reserve. -/
def preallocateVariable : String := "FASTSYNC_PREALLOCATE_NODES"

/-- A number of cells that could not be read. -/
structure Ignored where
  value : String
  fault : Text.NumberFault

/-- What the log tells of an ignored number. -/
def Ignored.event (i : Ignored) : Log.Event :=
  { level := .warn
    target := "fastsync::core::config"
    message := "Ignoring invalid " ++ preallocateVariable
    fields := [("value", .text i.value), ("error", .text i.fault.message)] }

/-- The text in the bytes of a variable, if they are set and spell one. -/
def variableText? (bytes : Option (List UInt8)) : Option (List Char) :=
  bytes.bind fun bytes => (Text.Utf8.decode bytes).toOption

/-- Whether the value of a variable switches something on. -/
def isOn (value : List Char) : Bool :=
  value = ['1'] || value.map Char.toLower = ['t', 'r', 'u', 'e']

/-- The settings for the values of the two variables, and what was ignored on the way. -/
def fromEnvironment (avoidPools preallocate : Option (List UInt8)) : Config × Option Ignored :=
  let nodePooling := !((variableText? avoidPools).any isOn)
  match variableText? preallocate with
  | none => ({ nodePooling }, none)
  | some raw =>
    match Text.readUnsigned Text.wordLimit (Text.trimBlanks raw) with
    | .ok n => ({ nodePooling, preallocateNodes := n }, none)
    | .error fault => ({ nodePooling }, some ⟨String.ofList raw, fault⟩)

/-- The settings as a developer sees them. -/
def debug (c : Config) : String :=
  s!"SyncConfig \x7b node_pooling: {c.nodePooling}, " ++
    s!"preallocate_nodes: {c.preallocateNodes} \x7d"

end BlockingSync.Config
