/-
The first piece of a JSON value.

A scalar is its own first piece and is read whole; of an array or an object it is the
opening bracket.  Every reader starts here, so a fault inside a scalar is found before
the scalar is compared with the type that is wanted.
-/
import BlockingSync.Json.Number
import BlockingSync.Json.Text

namespace BlockingSync.Json

/-- The first piece of a value. -/
inductive Head where
  | null
  | boolean (b : Bool)
  | number (n : Number) (written : List Char)
  | text (cs : List Char)
  | array
  | object

/-- What the piece is called in a message. -/
def Head.found : Head → Found
  | .null => .null
  | .boolean b => .boolean b
  | .number (.integer n) _ => .integer n
  | .number .floating _ => .floating
  | .text cs => .text (String.ofList cs)
  | .array => .sequence
  | .object => .map

/-- Whether a character may stand between the pieces of a text. -/
def isSpace (c : Char) : Bool :=
  c = ' ' || c = '\t' || c = '\n' || c = '\r'

/-- Skips space. -/
def skipSpace (cs : List Char) : List Char :=
  cs.dropWhile isSpace

/-- Reads the remaining letters of a literal. -/
def readLiteral : List Char → List Char → Except Fault (List Char)
  | [], cs => .ok cs
  | _ :: _, [] => .error .endInValue
  | w :: word, c :: cs => if w = c then readLiteral word cs else .error .badLiteral

/-- Whether a character occurs in numbers.  Nothing that may follow a number does. -/
def inNumber (c : Char) : Bool :=
  isDigit c || c = '-' || c = '+' || c = '.' || c = 'e' || c = 'E'

/-- Reads the first piece of a value that starts at once. -/
def readHeadAt : List Char → Except Fault (Head × List Char)
  | [] => .error .endInValue
  | c :: cs =>
    if c = 'n' then (readLiteral ['u', 'l', 'l'] cs).map fun rest => (.null, rest)
    else if c = 't' then (readLiteral ['r', 'u', 'e'] cs).map fun rest => (.boolean true, rest)
    else if c = 'f' then
      (readLiteral ['a', 'l', 's', 'e'] cs).map fun rest => (.boolean false, rest)
    else if c = '"' then (readText cs).map fun (cs, rest) => (.text cs, rest)
    else if c = '[' then .ok (.array, cs)
    else if c = '\x7b' then .ok (.object, cs)
    else if c = '-' ∨ isDigit c then
      (readNumber (c :: cs)).map fun (n, rest) => (.number n ((c :: cs).takeWhile inNumber), rest)
    else .error .noValue

/-- Reads the first piece of the next value. -/
def readHead (cs : List Char) : Except Fault (Head × List Char) :=
  readHeadAt (skipSpace cs)

end BlockingSync.Json
