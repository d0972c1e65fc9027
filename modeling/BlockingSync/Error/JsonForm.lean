/-
Errors as JSON.

An error is written as an object with its kind under `error_type` and, for the kinds
with a text, the text under `details`.  Reading accepts the two fields in either order,
skips fields of other names, and accepts an array of the two as well.

The kind decides how the details are read.  When they come first, they are kept as a
value and judged once the kind is known.
-/
import BlockingSync.Error.Basic
import BlockingSync.Record.JsonForm
import BlockingSync.Json.Skip

namespace BlockingSync.SyncError

open Json (Fault Found Reader)

/-- The kinds of errors. -/
inductive Tag where
  | ownership
  | argument
  | emptyQueue
  | format
  deriving DecidableEq

namespace Tag

/-- The kinds in the order in which messages list them. -/
def all : List Tag := [.ownership, .argument, .emptyQueue, .format]

/-- The name under which a kind is written. -/
def name : Tag → String
  | .ownership => "ownership"
  | .argument => "argument"
  | .emptyQueue => "empty_queue"
  | .format => "format"

/-- The kind of the given name. -/
def ofName (s : String) : Except Fault Tag :=
  match all.find? fun tag => tag.name == s with
  | some tag => .ok tag
  | none => .error (.unknownVariant s (all.map name))

/-- The error of a kind, which has a text or has none. -/
def build : Tag → SyncError ⊕ (String → SyncError)
  | .ownership => .inl .ownership
  | .argument => .inr .argument
  | .emptyQueue => .inl .emptyQueue
  | .format => .inr .format

end Tag

/-- The kind of an error. -/
def tag : SyncError → Tag
  | .ownership => .ownership
  | .argument _ => .argument
  | .emptyQueue => .emptyQueue
  | .format _ => .format

/-! ### Writing -/

/-- The error as an object.  The members stand in the order kind, details. -/
def toJson (e : SyncError) : Json :=
  .object (("error_type", .text e.tag.name) ::
    match e.reason? with
    | some reason => [("details", .text reason)]
    | none => [])

/-! ### Reading -/

/-- What a type is called when an error is wanted. -/
def expected : String := "adjacently tagged enum SyncError"

/-- Reads a name of a kind. -/
def nameReader : Reader Tag := fun cs => do
  let (head, rest) ← Json.readHead cs
  match head with
  | .text name => return (← Tag.ofName (String.ofList name), rest)
  | head => .error (.wrongType head.found "variant identifier")

/-- Reads a name of a kind as the key of an object whose brace has been read. -/
def keyReader : Reader Tag := fun cs => do
  match ← Json.nextKey true cs with
  | none => .error .noValue
  | some cs =>
    let (name, rest) ← Json.readText cs
    return (← Tag.ofName (String.ofList name), rest)

/-- Reads a kind: its name, or an object with the name as the key of `null`. -/
def tagReader : Reader Tag := fun cs =>
  match Json.skipSpace cs with
  | [] => .error .endInValue
  | c :: rest =>
    if c = '"' then nameReader (c :: rest)
    else if c = '\x7b' then do
      let (tag, rest) ← keyReader rest
      let ((), rest) ← Json.unitReader (← Json.pastColon rest)
      match Json.skipSpace rest with
      | [] => .error .endInObject
      | d :: rest => if d = '\x7d' then return (tag, rest) else .error .noValue
    else .error .noValue

/-- What the details of a kind without a text are compared with. -/
def unitName (e : SyncError) : String :=
  "unit variant SyncError::" ++ e.kind

/-- Reads the details of an error of a known kind. -/
def detailsReader (tag : Tag) : Reader SyncError := fun cs =>
  match tag.build with
  | .inl e => do
    let (head, rest) ← Json.readHead cs
    match head with
    | .null => return (e, rest)
    | head => .error (.wrongType head.found (unitName e))
  | .inr make => do
    let (reason, rest) ← Json.textReader cs
    return (make reason, rest)

/-- What a value is called in a message. -/
def foundOf : Json → Found
  | .null => .null
  | .boolean b => .boolean b
  | .integer n => .integer n
  | .decimal _ => .floating
  | .text s => .text s
  | .array _ => .sequence
  | .object _ => .map

/-- Judges details that were kept until the kind was known. -/
def ofDetails (tag : Tag) (details : Json) : Except Fault SyncError :=
  match tag.build, details with
  | .inl e, .null => .ok e
  | .inl e, v => .error (.wrongType (foundOf v) (unitName e))
  | .inr make, .text reason => .ok (make reason)
  | .inr _, v => .error (.wrongType (foundOf v) "a string")

/-- The error of a kind whose details are missing. -/
def withoutDetails (tag : Tag) : Except Fault SyncError :=
  match tag.build with
  | .inl e => .ok e
  | .inr _ => .error (.missingField "details")

/-- A field of interest. -/
inductive Field where
  | errorType
  | details
  deriving DecidableEq

def Field.name : Field → String
  | .errorType => "error_type"
  | .details => "details"

/-- Goes to the next field of interest and reads its key, skipping other fields. -/
def nextFieldFrom : Nat → Bool → List Char → Except Fault (Option Field × List Char)
  | 0, _, _ => .error .endInObject
  | fuel + 1, first, cs => do
    match ← Json.nextKey first cs with
    | none => return (none, cs)
    | some cs =>
      let (key, rest) ← Json.readText cs
      if String.ofList key = Field.errorType.name then return (some .errorType, rest)
      else if String.ofList key = Field.details.name then return (some .details, rest)
      else nextFieldFrom fuel false (← Json.skipValue (← Json.pastColon rest))

/-- Goes to the next field of interest. -/
def nextField (first : Bool) (cs : List Char) : Except Fault (Option Field × List Char) :=
  nextFieldFrom (cs.length + 1) first cs

/-- Reads on to the closing brace, where neither field may come again. -/
def finishObject (e : SyncError) (cs : List Char) : Except Fault (SyncError × List Char) := do
  match ← nextField false cs with
  | (some field, _) => .error (.duplicateField field.name)
  | (none, rest) => return (e, ← Json.closeObject rest)

/-- Reads the fields of an object whose brace has been read. -/
def fieldsReader : Reader SyncError := fun cs => do
  match ← nextField true cs with
  | (none, _) => .error (.missingField Field.errorType.name)
  | (some .errorType, rest) =>
    let (tag, rest) ← tagReader (← Json.pastColon rest)
    match ← nextField false rest with
    | (some .errorType, _) => .error (.duplicateField Field.errorType.name)
    | (some .details, rest) =>
      let (e, rest) ← detailsReader tag (← Json.pastColon rest)
      finishObject e rest
    | (none, rest) => return (← withoutDetails tag, ← Json.closeObject rest)
  | (some .details, rest) =>
    let (details, rest) ← Json.reader (Json.depthLimit - 1) (← Json.pastColon rest)
    match ← nextField false rest with
    | (some .details, _) => .error (.duplicateField Field.details.name)
    | (none, _) => .error (.missingField Field.errorType.name)
    | (some .errorType, rest) =>
      let (tag, rest) ← tagReader (← Json.pastColon rest)
      finishObject (← ofDetails tag details) rest

/-- Reads the elements of an array whose bracket has been read.  The kind stands here under
its name only. -/
def elementsReader : Reader SyncError := fun cs => do
  match ← Json.nextElement true cs with
  | none => .error (.wrongLength 0 expected)
  | some cs =>
    let (tag, rest) ← nameReader cs
    match ← Json.nextElement false rest with
    | none => .error (.wrongLength 1 expected)
    | some cs =>
      let (e, rest) ← detailsReader tag cs
      return (e, ← Json.closeList rest)

/-- Reads an error. -/
def jsonReader : Reader SyncError := fun cs => do
  let (head, rest) ← Json.readHead cs
  match head with
  | .object => fieldsReader rest
  | .array => elementsReader rest
  | head => .error (.wrongType head.found expected)

/-- The error that the text writes. -/
def ofJsonText (text : String) : Except Fault SyncError :=
  Json.readWhole jsonReader text

end BlockingSync.SyncError
