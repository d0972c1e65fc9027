/-
The command line of the program that shows the primitives at work.
-/
import BlockingSync.Demo

open BlockingSync

/-- Runs the program on the arguments and the environment of the process. -/
def main (arguments : List String) : IO UInt32 := do
  let names := [Demo.Environment.filterVariable, Demo.Environment.traceJsonVariable,
    Config.avoidPoolsVariable, Config.preallocateVariable]
  let values ← names.mapM fun name => do return (name, ← IO.getEnv name)
  let outcome := Demo.run arguments (.ofLookup fun name => (values.lookup name).join)
  IO.print outcome.log
  IO.eprint outcome.complaint
  return outcome.exitCode.toUInt32
