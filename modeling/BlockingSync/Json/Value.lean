/-
Reading a JSON value of any kind.

Values may be nested to a fixed depth only, so reading counts the depth down; a
scalar needs none of it.
-/
import BlockingSync.Json.Basic
import BlockingSync.Json.Reader
import BlockingSync.Dict

namespace BlockingSync.Json

/-- One more than the number of brackets that may be open at once. -/
def depthLimit : Nat := 128

/-- Reads a value, and the values inside it with the given reader; if there is none, no bracket
may be opened.  A key that is repeated keeps its last value. -/
def readerOver (inner : Option (Reader Json)) : Reader Json := fun cs => do
  let (head, rest) ← readHead cs
  match head, inner with
  | .null, _ => return (.null, rest)
  | .boolean b, _ => return (.boolean b, rest)
  | .number (.integer n) _, _ => return (.integer n, rest)
  | .number .floating written, _ => return (.decimal (String.ofList written), rest)
  | .text cs, _ => return (.text (String.ofList cs), rest)
  | .array, none | .object, none => .error .tooDeep
  | .array, some value =>
    let (vs, rest) ← elements value true rest
    return (.array vs, rest)
  | .object, some value =>
    let (ms, rest) ← members value rest
    return (.object (Dict.sortedOf ms), rest)

/-- Reads a value with fewer than `depth` brackets open at once. -/
def reader : (depth : Nat) → Reader Json
  | 0 | 1 => readerOver none
  | depth + 2 => readerOver (some (reader (depth + 1)))

/-- The value that the text writes. -/
def ofText (s : String) : Except Fault Json :=
  readWhole (reader depthLimit) s

end BlockingSync.Json
