/-
Queue records as JSON.

A record is an array: the capacity, then the values.  Optional values are `null` or the
value itself, pairs are arrays of two, dictionaries are objects, and what has no content
is `null`.
-/
import BlockingSync.Record.Shape
import BlockingSync.Json.Value

namespace BlockingSync

/-! ### Writing -/

/-- The array that holds a record whose values have been written. -/
def Record.toJson (r : Record Json) : Json :=
  .array (.integer r.capacity.val :: r.values)

namespace Shape

/-- Writes a value as JSON. -/
def toJson : (s : Shape) → s.Value → Except Refusal Json
  | .unsigned _, n => .ok (.integer (Fin.val n))
  | .signed _, n => .ok (.integer (Subtype.val n))
  | .boolean, b => .ok (.boolean b)
  | .character, c => .ok (.text (String.singleton c))
  | .text, s => .ok (.text s)
  | .unit, _ | .primitive _, _ => .ok .null
  | .option _, none => .ok .null
  | .option s, some v => s.toJson v
  | .list s, vs => do return .array (← vs.mapM s.toJson)
  | .pair first second, (v, w) => do return .array [← first.toJson v, ← second.toJson w]
  | .dict s, d => do
    return .object (← d.entries.mapM fun (key, v) => do return (key, ← s.toJson v))
  | .queue s, r => do return Record.toJson ⟨r.capacity, ← r.values.mapM s.toJson⟩
  | .reluctant, n => if Subtype.val n < 0 then .error .negative else .ok (.integer (Subtype.val n))

end Shape

/-! ### Reading -/

namespace Json

/-- Reads an unsigned integer. -/
def unsignedReader (w : Width) : Reader (Unsigned w) := fun cs => do
  let name := Shape.integerName false w
  let (head, rest) ← readHead cs
  match head with
  | .number (.integer n) _ =>
    if h : 0 ≤ n ∧ n.toNat < w.limit then return (⟨n.toNat, h.2⟩, rest)
    else .error (.wrongValue (.integer n) name)
  | head => .error (.wrongType head.found name)

/-- Reads a signed integer. -/
def signedReader (w : Width) : Reader (Signed w) := fun cs => do
  let name := Shape.integerName true w
  let (head, rest) ← readHead cs
  match head with
  | .number (.integer n) _ =>
    if h : -(w.half : Int) ≤ n ∧ n < (w.half : Int) then return (⟨n, h⟩, rest)
    else .error (.wrongValue (.integer n) name)
  | head => .error (.wrongType head.found name)

/-- Reads a truth value. -/
def booleanReader : Reader Bool := fun cs => do
  let (head, rest) ← readHead cs
  match head with
  | .boolean b => return (b, rest)
  | head => .error (.wrongType head.found "a boolean")

/-- Reads a string of exactly one character. -/
def characterReader : Reader Char := fun cs => do
  let (head, rest) ← readHead cs
  match head with
  | .text [c] => return (c, rest)
  | .text cs => .error (.wrongValue (.text (String.ofList cs)) "a character")
  | head => .error (.wrongType head.found "a character")

/-- Reads a string. -/
def textReader : Reader String := fun cs => do
  let (head, rest) ← readHead cs
  match head with
  | .text cs => return (String.ofList cs, rest)
  | head => .error (.wrongType head.found "a string")

/-- Reads `null`, which holds nothing. -/
def unitReader : Reader Unit := fun cs => do
  let (head, rest) ← readHead cs
  match head with
  | .null => return ((), rest)
  | head => .error (.wrongType head.found "unit")

/-- Reads a value that may be absent. -/
def optionReader {α : Type} (value : Reader α) : Reader (Option α) := fun cs => do
  match ← readHead cs with
  | (.null, rest) => return (none, rest)
  | _ =>
    let (v, rest) ← value cs
    return (some v, rest)

/-- Reads a list. -/
def listReader {α : Type} (value : Reader α) : Reader (List α) := fun cs => do
  let (head, rest) ← readHead cs
  match head with
  | .array => elements value true rest
  | head => .error (.wrongType head.found "a sequence")

/-- Reads an array of exactly two elements. -/
def pairReader {α β : Type} (first : Reader α) (second : Reader β) : Reader (α × β) := fun cs => do
  let expected := "a tuple of size 2"
  let (head, rest) ← readHead cs
  match head with
  | .array =>
    match ← nextElement true rest with
    | none => .error (.wrongLength 0 expected)
    | some rest =>
      let (v, rest) ← first rest
      match ← nextElement false rest with
      | none => .error (.wrongLength 1 expected)
      | some rest =>
        let (w, rest) ← second rest
        return ((v, w), ← closeList rest)
  | head => .error (.wrongType head.found expected)

/-- Reads a dictionary; a key that is repeated keeps its last value. -/
def dictReader {α : Type} (value : Reader α) : Reader (Dict α) := fun cs => do
  let (head, rest) ← readHead cs
  match head with
  | .object =>
    let (entries, rest) ← members value rest
    return (Dict.ofList entries, rest)
  | head => .error (.wrongType head.found "a map")

/-- Reads a queue record: the capacity, then the values. -/
def recordReader {α : Type} (value : Reader α) : Reader (Record α) := fun cs => do
  let (head, rest) ← readHead cs
  match head with
  | .array =>
    match ← nextElement true rest with
    | none => .error .missingCapacity
    | some rest =>
      let (capacity, rest) ← unsignedReader .w64 rest
      let (values, rest) ← elements value false rest
      return (⟨capacity, values⟩, rest)
  | head =>
    .error (.wrongType head.found "a queue record: capacity followed by the queued values")

end Json

namespace Shape

/-- Reads a value of the given shape. -/
def jsonReader : (s : Shape) → Json.Reader s.Value
  | .unsigned w => Json.unsignedReader w
  | .signed w => Json.signedReader w
  | .boolean => Json.booleanReader
  | .character => Json.characterReader
  | .text => Json.textReader
  | .unit | .primitive _ => Json.unitReader
  | .option s => Json.optionReader s.jsonReader
  | .list s => Json.listReader s.jsonReader
  | .pair first second => Json.pairReader first.jsonReader second.jsonReader
  | .dict s => Json.dictReader s.jsonReader
  | .queue s => Json.recordReader s.jsonReader
  | .reluctant => Json.signedReader .w64

end Shape

/-! ### Records -/

namespace Record

/-- The text of a record. -/
def jsonText {s : Shape} (r : Record s.Value) : Except SyncError String :=
  match (Shape.queue s).toJson r with
  | .ok v => .ok v.compact
  | .error refusal => .error (.format refusal.message)

/-- The record that the text writes. -/
def ofJsonText {α : Type} (value : Json.Reader α) (text : String) : Except SyncError (Record α) :=
  match Json.readWhole (Json.recordReader value) text with
  | .ok r => .ok r
  | .error fault => .error (.format fault.message)

end Record

end BlockingSync
