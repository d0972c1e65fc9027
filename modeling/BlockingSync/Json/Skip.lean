/-
Skipping a value that nobody wants.

A skipped value is checked less strictly than one that is read: numbers may have any
size and surrogates need not be paired.  Brackets may be nested to any depth; the open
ones are kept on a stack.
-/
import BlockingSync.Json.Reader

namespace BlockingSync.Json

/-- Skips an exponent, if there is one. -/
def skipExponent : List Char → Except Fault (List Char)
  | [] => .ok []
  | c :: cs =>
    if c = 'e' ∨ c = 'E' then
      match spanDigits (if cs.head? = some '+' ∨ cs.head? = some '-' then cs.tail else cs) with
      | ([], _) => .error .badNumber
      | (_, rest) => .ok rest
    else .ok (c :: cs)

/-- Skips a fraction, if there is one. -/
def skipFraction : List Char → Except Fault (List Char)
  | '.' :: cs =>
    match spanDigits cs with
    | ([], _) => .error .badNumber
    | (_, rest) => .ok rest
  | cs => .ok cs

/-- Skips a number. -/
def skipNumber (cs : List Char) : Except Fault (List Char) := do
  let unsigned := if cs.head? = some '-' then cs.tail else cs
  match spanDigits unsigned with
  | ([], _) => .error .badNumber
  | ('0' :: _ :: _, _) => .error .badNumber
  | (_, rest) => skipExponent (← skipFraction rest)

/-- An open bracket. -/
inductive Bracket where
  | list
  | object
  deriving DecidableEq

namespace Bracket

/-- The character that closes the bracket. -/
def closing : Bracket → Char
  | .list => ']'
  | .object => '\x7d'

/-- The fault of a text that ends inside the bracket. -/
def endFault : Bracket → Fault
  | .list => .endInList
  | .object => .endInObject

/-- The fault of a text that goes on without a comma. -/
def separatorFault : Bracket → Fault
  | .list => .noListSeparator
  | .object => .noObjectSeparator

end Bracket

/-- Skips a scalar or an opening bracket; the bracket is yielded. -/
def skipPiece (cs : List Char) : Except Fault (Option Bracket × List Char) :=
  match skipSpace cs with
  | [] => .error .endInValue
  | c :: cs =>
    if c = 'n' then (readLiteral ['u', 'l', 'l'] cs).map (none, ·)
    else if c = 't' then (readLiteral ['r', 'u', 'e'] cs).map (none, ·)
    else if c = 'f' then (readLiteral ['a', 'l', 's', 'e'] cs).map (none, ·)
    else if c = '"' then (skipText cs).map (none, ·)
    else if c = '[' then .ok (some .list, cs)
    else if c = '\x7b' then .ok (some .object, cs)
    else if c = '-' ∨ isDigit c then (skipNumber (c :: cs)).map (none, ·)
    else .error .noValue

/-- Goes to the next value inside a bracket; in an object a key stands before it. -/
def skipKey (bracket : Bracket) (cs : List Char) : Except Fault (List Char) :=
  match bracket with
  | .list => .ok cs
  | .object =>
    match skipSpace cs with
    | [] => .error .endInObject
    | c :: rest => if c = '"' then do pastColon (← skipText rest) else .error .keyNotText

/-- Closes the brackets that end here, innermost first, and goes to the next value of the one
that does not.  Nothing stays open when the whole value has been skipped. -/
def closeBrackets (afterValue : Bool) : List Bracket → List Char →
    Except Fault (List Bracket × List Char)
  | [], cs => .ok ([], cs)
  | bracket :: outer, cs =>
    match skipSpace cs with
    | [] => .error bracket.endFault
    | c :: rest =>
      if c = ',' ∧ afterValue then (skipKey bracket rest).map (bracket :: outer, ·)
      else if c = bracket.closing then closeBrackets true outer rest
      else if afterValue then .error bracket.separatorFault
      else (skipKey bracket (c :: rest)).map (bracket :: outer, ·)

/-- Skips values until the given brackets are closed. -/
def skipFrom : Nat → List Bracket → List Char → Except Fault (List Char)
  | 0, _, _ => .error .endInValue
  | fuel + 1, stack, cs => do
    let (opened, rest) ← skipPiece cs
    let (still, rest) ←
      match opened with
      | some bracket => closeBrackets false (bracket :: stack) rest
      | none => closeBrackets true stack rest
    if still.isEmpty then return rest else skipFrom fuel still rest

/-- Skips the next value.  Every piece takes a character, so the length of the text bounds
the number of pieces. -/
def skipValue (cs : List Char) : Except Fault (List Char) :=
  skipFrom (cs.length + 1) [] cs

end BlockingSync.Json
