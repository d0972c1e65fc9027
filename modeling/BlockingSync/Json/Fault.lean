/-
Why a JSON text cannot be read.

A text is read from the left and each value is checked against the type wanted of it
as soon as it is met, so there is one first fault.  It is either a fault of the
syntax or a value of the wrong kind.
-/
import BlockingSync.Text.Quoted

namespace BlockingSync.Json

/-- What stands in the text where something else is wanted. -/
inductive Found where
  | null
  | boolean (b : Bool)
  | integer (n : Int)
  | floating
  | text (s : String)
  | sequence
  | map
  deriving DecidableEq

/-- The phrase that names what stands in the text. -/
def Found.phrase : Found → String
  | .null => "null"
  | .boolean b => s!"boolean `{b}`"
  | .integer n => s!"integer `{n}`"
  | .floating => "floating point"
  | .text s => "string " ++ Text.quoted s
  | .sequence => "sequence"
  | .map => "map"

/-- The first fault of a text. -/
inductive Fault where
  /-- The text ends where a value must start or inside a literal. -/
  | endInValue
  /-- The text ends where a comma or a closing bracket is due. -/
  | endInList
  /-- The text ends where a comma or a closing brace is due. -/
  | endInObject
  /-- The text ends inside a string. -/
  | endInText
  /-- No value starts here. -/
  | noValue
  | badLiteral
  | badNumber
  | numberOutOfRange
  | noListSeparator
  | noObjectSeparator
  | trailingComma
  | noColon
  | keyNotText
  | trailingCharacters
  | badEscape
  | controlCharacter
  /-- The first half of a surrogate pair without a second escape. -/
  | halfPair
  | loneSurrogate
  | tooDeep
  /-- A value of another kind than wanted. -/
  | wrongType (found : Found) (expected : String)
  /-- A value of the wanted kind that is out of its range. -/
  | wrongValue (found : Found) (expected : String)
  | wrongLength (length : Nat) (expected : String)
  | missingCapacity
  | missingField (name : String)
  | duplicateField (name : String)
  | unknownVariant (name : String) (known : List String)
  deriving DecidableEq

/-- The sentence that explains the fault. -/
def Fault.message : Fault → String
  | .endInValue => "EOF while parsing a value"
  | .endInList => "EOF while parsing a list"
  | .endInObject => "EOF while parsing an object"
  | .endInText => "EOF while parsing a string"
  | .noValue => "expected value"
  | .badLiteral => "expected ident"
  | .badNumber => "invalid number"
  | .numberOutOfRange => "number out of range"
  | .noListSeparator => "expected `,` or `]`"
  | .noObjectSeparator => "expected `,` or `\x7d`"
  | .trailingComma => "trailing comma"
  | .noColon => "expected `:`"
  | .keyNotText => "key must be a string"
  | .trailingCharacters => "trailing characters"
  | .badEscape => "invalid escape"
  | .controlCharacter => "control character (\\u0000-\\u001F) found while parsing a string"
  | .halfPair => "unexpected end of hex escape"
  | .loneSurrogate => "lone leading surrogate in hex escape"
  | .tooDeep => "recursion limit exceeded"
  | .wrongType found expected => s!"invalid type: {found.phrase}, expected {expected}"
  | .wrongValue found expected => s!"invalid value: {found.phrase}, expected {expected}"
  | .wrongLength length expected => s!"invalid length {length}, expected {expected}"
  | .missingCapacity => "missing capacity value"
  | .missingField name => s!"missing field `{name}`"
  | .duplicateField name => s!"duplicate field `{name}`"
  | .unknownVariant name known =>
    s!"unknown variant `{name}`, expected one of " ++
      ", ".intercalate (known.map fun variant => s!"`{variant}`")

end BlockingSync.Json
