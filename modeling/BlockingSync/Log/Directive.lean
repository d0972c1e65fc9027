/-
Directives of a filter.

A directive is a threshold, or the beginning of the targets that it is about, or both with `=`
between them; a beginning alone lets everything through.  Brackets after the beginning speak
of the span that an event happens in and, in braces, of a value that the event has.

The marks that divide a directive are looked for between the blanks at its ends, and their
distances are counted from there.  The parts are cut from the whole text at the same
distances: blanks in front shift every part towards the beginning, and blanks at the end
belong to the last one.
-/
import BlockingSync.Log.Event
import BlockingSync.Log.Value
import BlockingSync.Text.Cut

namespace BlockingSync.Log

/-- What a directive asks of an event besides its target. -/
structure Context where
  /-- The name of the span that the event happens in. -/
  span : Option String := none
  /-- A value that the event has, and whether the directive says which one. -/
  field : Option (String × Bool) := none

/-- A directive. -/
structure Directive where
  target : Option String := none
  context : Context := {}
  limit : Threshold := .upTo .trace

namespace Directive

/-! ### Where the parts stand -/

/-- A piece of a text, from one distance in bytes to another. -/
structure Piece where
  start : Nat
  stop : Nat

/-- The characters of a piece, if it can be cut. -/
def Piece.of? (p : Piece) (cs : List Char) : Option (List Char) := do
  Text.takeBytes? (p.stop - p.start) (← Text.dropBytes? p.start cs)

/-- Where the parts of a divided directive stand. -/
structure Layout where
  target : Option Piece := none
  span : Option Piece := none
  field : Option Piece := none
  /-- Where the threshold begins, which goes up to the end. -/
  limit : Option Nat := none

namespace Layout

/-- The distance of the first mark in a text that begins at a distance, and the text from it. -/
def seek (isMark : Char → Bool) (start : Nat) (cs : List Char) : Nat × List Char :=
  (start + Text.width (cs.takeWhile (!isMark ·)), cs.dropWhile (!isMark ·))

/-- Reads what stands behind a closing bracket. -/
def withLimit? (l : Layout) (start : Nat) : List Char → Option Layout
  | [] => some l
  | '=' :: _ => some { l with limit := some (start + 1) }
  | _ => none

/-- Reads what stands behind an opening bracket. -/
def withContext? (l : Layout) (start : Nat) (cs : List Char) : Option Layout :=
  let (stop, rest) := seek (fun c => c = ']' || c = '\x7b') start cs
  let span : Piece := ⟨start, stop⟩
  match rest with
  | ']' :: rest => withLimit? { l with span := some span } (stop + 1) rest
  | '\x7b' :: rest =>
    let (fieldStop, after) := seek (· = '\x7d') (stop + 1) rest
    match after with
    | '\x7d' :: ']' :: after =>
      let span := if start = stop then none else some span
      let field : Piece := ⟨stop + 1, fieldStop⟩
      if field.start = field.stop then none
      else withLimit? { l with span, field := some field } (fieldStop + 2) after
    | _ => none
  | _ => none

end Layout

/-- How a directive is divided. -/
inductive Division where
  /-- It is one part, a threshold or the beginning of targets. -/
  | undivided
  | divided (l : Layout)

/-- Whether a directive may begin with a character. -/
def mayBegin (c : Char) : Bool :=
  c = '-' || c = ':' || c = '_' || Text.isAlphanumeric c

/-- Finds the parts of a directive. -/
def Division.ofText? (cs : List Char) : Option Division :=
  match cs with
  | [] => none
  | '[' :: rest => (Layout.withContext? {} 1 rest).map .divided
  | c :: _ =>
    if mayBegin c then
      let (stop, rest) := Layout.seek (fun c => c = '=' || c = '[') 0 cs
      let l : Layout := { target := some ⟨0, stop⟩ }
      match rest with
      | [] => some .undivided
      | '[' :: rest => (l.withContext? (stop + 1) rest).map .divided
      | rest => (l.withLimit? stop rest).map .divided
    else
      none

/-! ### Reading -/

/-- The threshold behind `=`; nothing stands for the most detailed one. -/
def limit? (cs : List Char) : Option Threshold :=
  if cs.isEmpty then some (.upTo .trace) else Threshold.ofText? cs

/-- The field that stands in braces: its name and, behind `=`, a value. -/
def field? (cs : List Char) : Option (String × Bool) :=
  let name := String.ofList (cs.takeWhile (· ≠ '='))
  match cs.dropWhile (· ≠ '=') with
  | [] => some (name, false)
  | _ :: value => if isValue (value.takeWhile (· ≠ '=')) then some (name, true) else none

/-- The directive of one part. -/
def ofWhole (cs : List Char) : Directive :=
  match Threshold.ofText? cs with
  | some limit => { limit }
  | none => { target := some (String.ofList cs) }

/-- The directive with the given parts. -/
def ofLayout? (l : Layout) (cs : List Char) : Option Directive := do
  let target ← l.target.mapM (·.of? cs)
  let span ← l.span.mapM (·.of? cs)
  let field ← l.field.mapM fun piece => do field? (← piece.of? cs)
  let limit ← l.limit.mapM fun start => do limit? (← Text.dropBytes? start cs)
  return { target := target.map String.ofList
           context := { span := span.map String.ofList, field }
           limit := limit.getD (.upTo .trace) }

/-- Reads a directive. -/
def ofText? (cs : List Char) : Option Directive := do
  match ← Division.ofText? (Text.trimBlanks cs) with
  | .undivided => return ofWhole cs
  | .divided l => ofLayout? l cs

/-! ### Meaning -/

/-- Whether a directive can be decided without knowing spans and values. -/
def isStatic (d : Directive) : Bool :=
  d.context.span.isNone && !(d.context.field.any (·.2))

/-- Whether a directive is about an event. -/
def isAbout (d : Directive) (e : Event) : Bool :=
  d.target.all (fun start => start.toList.isPrefixOf e.target.toList) &&
    d.context.field.all (fun (name, _) => e.hasField name)

/-- Whether a directive is at least as specific as another one that is about the same event:
the longer target is, then the one that names a field. -/
def isAsSpecific (d other : Directive) : Bool :=
  let length := fun (d : Directive) => d.target.map String.utf8ByteSize
  let field := fun (d : Directive) => d.context.field.map (·.1)
  match compare (length d) (length other) with
  | .gt => true
  | .lt => false
  | .eq => (compare (field d) (field other)).isGE

end Directive

end BlockingSync.Log
