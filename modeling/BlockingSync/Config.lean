/-
Storage settings of wait lists.

Pooling keeps freed cells for reuse; without it a list gives its storage back
whenever it drains.  Reserving cells in advance is a matter of speed alone.
-/

namespace BlockingSync

/-- How wait lists store their cells. -/
structure Config where
  /-- Whether freed cells are kept for reuse. -/
  nodePooling : Bool := true
  /-- How many cells are reserved when a list is made. -/
  preallocateNodes : Nat := 0
  deriving DecidableEq

namespace Config

/-- Settings for primitives that rarely see contention. -/
def lowChurn : Config :=
  { nodePooling := false }

/-- Settings for primitives with many waiters coming and going. -/
def highChurn : Config :=
  { preallocateNodes := 64 }

end Config

end BlockingSync
