/-
Readers and the ways to put them together.

A reader takes the text from where a value is due and yields the value and what
follows it.  The combinators here know the brackets, commas and colons of arrays and
objects; each of them is handed the readers for the parts.

Every element takes at least one character, so the length of the text bounds the
number of elements, and the loops count down from it.
-/
import BlockingSync.Json.Head

namespace BlockingSync.Json

/-- Reads a value from the front of a text. -/
def Reader (α : Type) : Type :=
  List Char → Except Fault (α × List Char)

/-- Goes to the next element of a list, past the comma that precedes all but the first.
Yields nothing at the closing bracket, which is left unread. -/
def nextElement (first : Bool) (cs : List Char) : Except Fault (Option (List Char)) :=
  match skipSpace cs with
  | [] => .error .endInList
  | c :: rest =>
    if c = ']' then .ok none
    else if first then .ok (some (c :: rest))
    else if c = ',' then
      match skipSpace rest with
      | [] => .error .endInValue
      | d :: tail => if d = ']' then .error .trailingComma else .ok (some (d :: tail))
    else .error .noListSeparator

/-- Closes a list after its last wanted element. -/
def closeList (cs : List Char) : Except Fault (List Char) :=
  match skipSpace cs with
  | [] => .error .endInList
  | c :: rest =>
    if c = ']' then .ok rest
    else if c = ',' then
      match skipSpace rest with
      | [] => .error .trailingCharacters
      | d :: _ => if d = ']' then .error .trailingComma else .error .trailingCharacters
    else .error .trailingCharacters

/-- Reads the elements up to the closing bracket. -/
def elementsFrom {α : Type} (element : Reader α) : Nat → Bool → Reader (List α)
  | 0, _, _ => .error .endInList
  | fuel + 1, first, cs => do
    match ← nextElement first cs with
    | none => return ([], ← closeList cs)
    | some cs =>
      let (v, rest) ← element cs
      let (vs, rest) ← elementsFrom element fuel false rest
      return (v :: vs, rest)

/-- Reads the elements of a list, the first or a later one being next, and its bracket. -/
def elements {α : Type} (element : Reader α) (first : Bool) : Reader (List α) := fun cs =>
  elementsFrom element (cs.length + 1) first cs

/-- Goes to the next key of an object, past the comma that precedes all but the first.
Yields nothing at the closing brace, otherwise the text after the opening quote. -/
def nextKey (first : Bool) (cs : List Char) : Except Fault (Option (List Char)) :=
  match skipSpace cs with
  | [] => .error .endInObject
  | c :: rest =>
    if c = '\x7d' then .ok none
    else if first then
      if c = '"' then .ok (some rest) else .error .keyNotText
    else if c = ',' then
      match skipSpace rest with
      | [] => .error .endInValue
      | d :: tail =>
        if d = '"' then .ok (some tail)
        else if d = '\x7d' then .error .trailingComma
        else .error .keyNotText
    else .error .noObjectSeparator

/-- Goes past the colon after a key. -/
def pastColon (cs : List Char) : Except Fault (List Char) :=
  match skipSpace cs with
  | [] => .error .endInObject
  | c :: rest => if c = ':' then .ok rest else .error .noColon

/-- Closes an object after its last member. -/
def closeObject (cs : List Char) : Except Fault (List Char) :=
  match skipSpace cs with
  | [] => .error .endInObject
  | c :: rest =>
    if c = '\x7d' then .ok rest
    else if c = ',' then .error .trailingComma
    else .error .trailingCharacters

/-- Reads the members up to the closing brace. -/
def membersFrom {α : Type} (value : Reader α) : Nat → Bool → Reader (List (String × α))
  | 0, _, _ => .error .endInObject
  | fuel + 1, first, cs => do
    match ← nextKey first cs with
    | none => return ([], ← closeObject cs)
    | some cs =>
      let (key, rest) ← readText cs
      let (v, rest) ← value (← pastColon rest)
      let (members, rest) ← membersFrom value fuel false rest
      return ((String.ofList key, v) :: members, rest)

/-- Reads the members of an object whose brace has been read, in the order of the text. -/
def members {α : Type} (value : Reader α) : Reader (List (String × α)) := fun cs =>
  membersFrom value (cs.length + 1) true cs

/-- Reads a whole text: one value and nothing after it but space. -/
def readWhole {α : Type} (value : Reader α) (s : String) : Except Fault α := do
  let (v, rest) ← value s.toList
  if (skipSpace rest).isEmpty then return v else .error .trailingCharacters

end BlockingSync.Json
