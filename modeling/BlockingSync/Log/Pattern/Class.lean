/-
Classes of characters, as they stand in brackets.

A class lists characters, ranges of them and further classes, which may be joined by
operators of two signs.  A minus sign at the beginning and a closing bracket as the very first
are members.
-/
import BlockingSync.Log.Pattern.Nesting
import BlockingSync.Log.Pattern.Sign

namespace BlockingSync.Log.Pattern

/-- Whether a character may be a member of a class. -/
def Modes.admitsMember (m : Modes) (c : Char) : Bool :=
  if m.unicode then !m.anyCase else c.toNat < 0x80

/-- Whether a class by name, or everything outside it, may be part of a class. -/
def Modes.admitsName (m : Modes) (negated : Bool) : Bool :=
  if m.unicode then !m.anyCase else !negated

/-- The names of classes. -/
def classNames : List String :=
  ["alnum", "alpha", "ascii", "blank", "cntrl", "digit", "graph", "lower", "print", "punct",
    "space", "upper", "word", "xdigit"]

/-- Reads a class by its name between colons, behind the bracket: whether it is negated. -/
def classByName? : List Char → Option (Bool × List Char)
  | ':' :: cs =>
    let (negated, cs) := match cs with
      | '^' :: cs => (true, cs)
      | cs => (false, cs)
    match cs.dropWhile (· ≠ ':') with
    | ':' :: ']' :: rest =>
      if classNames.contains (String.ofList (cs.takeWhile (· ≠ ':'))) then some (negated, rest)
      else none
    | _ => none
  | _ => none

/-- Reads on behind an opening bracket, where a caret may negate the class. -/
def openClass? (m : Modes) (cs : List Char) : Option (List Char) :=
  match m.skip cs with
  | '^' :: cs => if m.unicode then some cs else none
  | cs => some cs

/-- Whether a sign by itself may be part of a class. -/
def isMember (m : Modes) : Sign → Bool
  | .char c _ => m.admitsMember c
  | .kind negated => m.admits (.kind negated)
  | .place _ => false

/-- Whether two signs are the ends of a range. -/
def isRange (m : Modes) : Sign → Sign → Bool
  | .char low _, .char high _ => low ≤ high && m.admitsMember low && m.admitsMember high
  | _, _ => false

/-- Reads a member or a range.  A minus sign before another one, or before the closing
bracket, makes no range. -/
def member? (m : Modes) (cs : List Char) : Option (List Char) := do
  let (sign, rest) ← sign? m cs
  let alone := fun rest => if isMember m sign then some rest else none
  match m.skip rest with
  | '-' :: after =>
    if m.ahead after = some ']' || m.ahead after = some '-' then alone ('-' :: after)
    else
      let (last, rest) ← sign? m (m.skip after)
      if isRange m sign last then some rest else none
  | rest => alone rest

/-- Whether two characters are an operator. -/
def isOperator (c : Char) (next? : Option Char) : Bool :=
  (c = '&' || c = '-' || c = '~') && next? = some c

/-- Where reading stands in a class. -/
inductive ClassPlace where
  /-- At the beginning. -/
  | first
  /-- After nothing but minus signs. -/
  | dashes
  | inside
  deriving DecidableEq

/-- A class that is being read. -/
structure OpenClass where
  place : ClassPlace := .first
  /-- The levels of what stands in front of the last operator. -/
  left : Option Nat := none
  /-- The members since then. -/
  row : Row := {}

namespace OpenClass

/-- The levels of what the brackets hold. -/
def levels (c : OpenClass) : Nat :=
  match c.left with
  | none => c.row.levels
  | some left => max left c.row.levels + 1

/-- The class with a member of the given number of levels. -/
def add (c : OpenClass) (levels : Nat) : OpenClass :=
  { c with place := .inside, row := c.row.push levels }

/-- The class with one more minus sign at the beginning. -/
def addDash (c : OpenClass) : OpenClass :=
  { c with place := .dashes, row := c.row.push 0 }

/-- The class behind an operator. -/
def operate (c : OpenClass) : OpenClass :=
  { place := .inside, left := some c.levels }

end OpenClass

/-- Reads on in a class, with classes around it, up to the end of the outermost; tells how many
levels that one has. -/
def classFrom? (m : Modes) : Nat → OpenClass → List OpenClass → List Char →
    Option (Nat × List Char)
  | 0, _, _, _ => none
  | fuel + 1, inner, outer, cs =>
    match m.skip cs with
    | [] => none
    | c :: cs =>
      if c = '-' && inner.place ≠ .inside then
        if m.admitsMember c then classFrom? m fuel inner.addDash outer cs else none
      else if c = ']' && inner.place = .first then
        if m.admitsMember c then classFrom? m fuel (inner.add 0) outer cs else none
      else if c = ']' then
        match outer with
        | [] => some (inner.levels + 1, cs)
        | next :: outer => classFrom? m fuel (next.add (inner.levels + 1)) outer cs
      else if c = '[' then
        match classByName? cs with
        | some (negated, rest) =>
          if m.admitsName negated then classFrom? m fuel (inner.add 0) outer rest else none
        | none => do classFrom? m fuel {} (inner :: outer) (← openClass? m cs)
      else if isOperator c cs.head? then
        classFrom? m fuel inner.operate outer cs.tail
      else do
        classFrom? m fuel (inner.add 0) outer (← member? m (c :: cs))

/-- Reads a class whose bracket has been read, and tells how many levels it has. -/
def class? (m : Modes) (cs : List Char) : Option (Nat × List Char) := do
  classFrom? m (cs.length + 1) {} [] (← openClass? m cs)

end BlockingSync.Log.Pattern
