/-
Patterns for the values of events.

A pattern is a regular expression.  Nothing is matched here: what counts is whether a text
is a pattern at all, since a text that is none makes everything around it unreadable.

Reading goes through the text sign by sign.  Its state is the group that is being read and
those around it, each with the modes that hold in it and with what has been read of it.
-/
import BlockingSync.Log.Pattern.Class
import BlockingSync.Text.Alphanumeric

namespace BlockingSync.Log.Pattern

/-- A group that is being read; the whole text counts as one. -/
structure OpenGroup where
  modes : Modes := {}
  /-- The alternatives that have been read. -/
  branches : Row := {}
  /-- The things in the present alternative. -/
  row : Row := {}
  /-- The levels of the last thing, if a sign of repetition may follow it. -/
  last : Option Nat := none

namespace OpenGroup

/-- The levels of what the group holds. -/
def levels (g : OpenGroup) : Nat :=
  (g.branches.push g.row.levels).levels

/-- The group with one more thing of the given number of levels. -/
def add (g : OpenGroup) (levels : Nat) : OpenGroup :=
  { g with row := g.row.push levels, last := some levels }

/-- The group with its last thing repeated. -/
def repeatLast? (g : OpenGroup) : Option OpenGroup :=
  g.last.map fun levels => { g with row := g.row.wrapLast levels, last := some (levels + 1) }

/-- The group from here on in other modes. -/
def change (g : OpenGroup) (modes : Modes) : OpenGroup :=
  { g with modes, row := g.row.push 0, last := none }

/-- The group at the beginning of its next alternative. -/
def branch (g : OpenGroup) : OpenGroup :=
  { modes := g.modes, branches := g.branches.push g.row.levels }

end OpenGroup

/-- Where reading stands in a pattern. -/
structure Reading where
  inner : OpenGroup := {}
  /-- The groups around, the innermost first. -/
  outer : List OpenGroup := []
  /-- The names that groups have. -/
  names : List (List Char) := []

namespace Reading

/-- The modes that hold now. -/
def modes (r : Reading) : Modes := r.inner.modes

/-- The state at the beginning of a group. -/
def enter (r : Reading) (modes : Modes) : Reading :=
  { r with inner := { modes }, outer := r.inner :: r.outer }

/-- The state at the end of a group. -/
def leave? (r : Reading) : Option Reading :=
  match r.outer with
  | [] => none
  | next :: outer => some { r with inner := next.add (r.inner.levels + 1), outer }

/-- The state after something that has the given number of levels. -/
def add (r : Reading) (levels : Nat) : Reading :=
  { r with inner := r.inner.add levels }

end Reading

/-! ### Groups -/

/-- Whether a text can be the name of a group. -/
def isGroupName : List Char → Bool
  | [] => false
  | c :: cs =>
    (c = '_' || Text.isLetter c) &&
      cs.all fun c => c = '_' || c = '.' || c = '[' || c = ']' || Text.isAlphanumeric c

/-- Reads the name of a group up to the angle bracket behind it. -/
def groupName? (r : Reading) (cs : List Char) : Option (Reading × List Char) :=
  let name := cs.takeWhile (· ≠ '>')
  match cs.dropWhile (· ≠ '>') with
  | _ :: rest =>
    if isGroupName name && !r.names.contains name then
      some ({ r.enter r.modes with names := name :: r.names }, rest)
    else
      none
  | [] => none

/-- Whether a text is a list of flags.  None comes twice, and something follows a minus sign. -/
def areFlags (cs : List Char) : Bool :=
  cs.all (fun c => "imsUuRx-".toList.contains c && cs.count c = 1) && cs.getLast? ≠ some '-'

/-- Reads flags.  They hold for a group behind a colon or, in parentheses of their own, up to
the end of the group around them. -/
def flags? (r : Reading) (cs : List Char) : Option (Reading × List Char) :=
  let inFlags := fun c => c ≠ ':' && c ≠ ')'
  let flags := cs.takeWhile inFlags
  if areFlags flags then
    match cs.dropWhile inFlags with
    | ':' :: rest => some (r.enter (r.modes.set flags), rest)
    | ')' :: rest =>
      if flags.isEmpty then none
      else some ({ r with inner := r.inner.change (r.modes.set flags) }, rest)
    | _ => none
  else
    none

/-- Reads on behind an opening parenthesis. -/
def group? (r : Reading) (cs : List Char) : Option (Reading × List Char) :=
  match r.modes.skip cs with
  | '?' :: 'P' :: '<' :: rest => groupName? r rest
  | '?' :: '<' :: rest => groupName? r rest
  | '?' :: rest => flags? r rest
  | rest => some (r.enter r.modes, rest)

/-! ### The whole text -/

/-- The text behind a sign of repetition.  A question mark right behind it belongs to it. -/
def pastRepetition : List Char → List Char
  | '?' :: cs => cs
  | cs => cs

/-- Reads what stands next. -/
def next? (r : Reading) : List Char → Option (Reading × List Char)
  | [] => none
  | c :: cs =>
    match c with
    | '(' => group? r cs
    | ')' => do return (← r.leave?, cs)
    | '|' => some ({ r with inner := r.inner.branch }, cs)
    | '[' => do
      let (levels, rest) ← class? r.modes cs
      return (r.add levels, rest)
    | '?' | '*' | '+' => do
      return ({ r with inner := ← r.inner.repeatLast? }, pastRepetition cs)
    | '\x7b' => none
    | '.' => if r.modes.admitsAny then some (r.add 0, cs) else none
    | '^' | '$' => some (r.add 0, cs)
    | c => do
      let (sign, rest) ← sign? r.modes (c :: cs)
      if r.modes.admits sign then some (r.add 0, rest) else none

/-- Whether the rest of a pattern can be read. -/
def readsFrom : Nat → Reading → List Char → Bool
  | 0, _, _ => false
  | fuel + 1, r, cs =>
    match r.modes.skip cs with
    | [] => r.outer.isEmpty && r.inner.levels ≤ nestingLimit
    | cs =>
      match next? r cs with
      | some (r, rest) => readsFrom fuel r rest
      | none => false

end Pattern

/-- Whether a text is a pattern. -/
def isPattern (cs : List Char) : Bool :=
  Pattern.readsFrom (cs.length + 1) {} cs

end BlockingSync.Log
