/-
JSON values and their compact text.

The members of an object are kept in the order of their keys, each key once, so equal
objects have equal texts.
-/
import BlockingSync.Json.Text

namespace BlockingSync

/-- A JSON value. -/
inductive Json where
  | null
  | boolean (b : Bool)
  | integer (n : Int)
  /-- A number that is no integer, as it is written. -/
  | decimal (written : String)
  | text (s : String)
  | array (elements : List Json)
  | object (members : List (String × Json))

namespace Json

/-- Puts `parts` behind one another with a comma between each two. -/
def commaSeparated : List (List Char) → List Char
  | [] => []
  | [part] => part
  | part :: parts => part ++ ',' :: commaSeparated parts

mutual

/-- The characters of the compact text. -/
def chars : Json → List Char
  | .null => ['n', 'u', 'l', 'l']
  | .boolean true => ['t', 'r', 'u', 'e']
  | .boolean false => ['f', 'a', 'l', 's', 'e']
  | .integer n => (toString n).toList
  | .decimal written => written.toList
  | .text s => writeText s.toList
  | .array elements => '[' :: commaSeparated (elementChars elements) ++ [']']
  | .object members => '\x7b' :: commaSeparated (memberChars members) ++ ['\x7d']

def elementChars : List Json → List (List Char)
  | [] => []
  | v :: vs => v.chars :: elementChars vs

def memberChars : List (String × Json) → List (List Char)
  | [] => []
  | (key, v) :: members => (writeText key.toList ++ ':' :: v.chars) :: memberChars members

end

/-- The compact text. -/
def compact (v : Json) : String :=
  String.ofList v.chars

end Json

end BlockingSync
