/-
The types of values that a persisted queue can hold.

A `Shape` is a description of a type, and `Shape.Value` is the type it describes.  The
writers and readers of both persistent forms are one recursion each on the shape.
-/
import BlockingSync.Record.Basic
import BlockingSync.Error.Basic
import BlockingSync.Dict

namespace BlockingSync

/-- The size of a machine integer. -/
inductive Width where
  | w8 | w16 | w32 | w64
  deriving DecidableEq

namespace Width

def bytes : Width → Nat
  | .w8 => 1
  | .w16 => 2
  | .w32 => 4
  | .w64 => 8

def bits (w : Width) : Nat := 8 * w.bytes

/-- The first number too large for an unsigned integer of the width. -/
def limit : Width → Nat
  | .w8 => 256
  | .w16 => 65536
  | .w32 => 4294967296
  | .w64 => 18446744073709551616

/-- The first number too large for a signed integer of the width. -/
def half : Width → Nat
  | .w8 => 128
  | .w16 => 32768
  | .w32 => 2147483648
  | .w64 => 9223372036854775808

theorem limit_eq (w : Width) : w.limit = 2 * w.half := by
  cases w <;> rfl

end Width

/-- The unsigned integers of a width. -/
abbrev Unsigned (w : Width) := Fin w.limit

/-- The signed integers of a width. -/
def Signed (w : Width) : Type :=
  { n : Int // -(w.half : Int) ≤ n ∧ n < (w.half : Int) }

instance (w : Width) : DecidableEq (Signed w) :=
  inferInstanceAs (DecidableEq { n : Int // -(w.half : Int) ≤ n ∧ n < (w.half : Int) })

/-- A description of a type of values. -/
inductive Shape where
  | unsigned (w : Width)
  | signed (w : Width)
  | boolean
  | character
  | text
  | unit
  /-- A lock or a condition variable.  Neither owner nor waiters are kept, so a restored
  one is always fresh. -/
  | primitive (kind : PrimitiveKind)
  | option (s : Shape)
  | list (s : Shape)
  | pair (first second : Shape)
  /-- A dictionary with text keys. -/
  | dict (s : Shape)
  /-- A queue inside the queue. -/
  | queue (s : Shape)
  /-- A signed word that refuses to be written while it is negative. -/
  | reluctant

namespace Shape

/-- The type that a shape describes. -/
def Value : Shape → Type
  | .unsigned w => Unsigned w
  | .signed w => Signed w
  | .boolean => Bool
  | .character => Char
  | .text => String
  | .unit | .primitive _ => Unit
  | .option s => Option s.Value
  | .list s => List s.Value
  | .pair first second => first.Value × second.Value
  | .dict s => Dict s.Value
  | .queue s => Record s.Value
  | .reluctant => Signed .w64

/-- What messages call a machine integer. -/
def integerName (isSigned : Bool) (w : Width) : String :=
  (if isSigned then "i" else "u") ++ toString w.bits

end Shape

/-- Why a value cannot be written. -/
inductive Refusal where
  | negative
  deriving DecidableEq

/-- The sentence that explains the refusal. -/
def Refusal.message : Refusal → String
  | .negative => "negative value"

end BlockingSync
