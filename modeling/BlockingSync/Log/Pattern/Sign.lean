/-
The signs of a pattern: what stands for one character or for one place between two.

Flags in a pattern change how its signs are taken.  A sign may speak of characters or of
bytes.  Characters have neither classes by letter nor pairs of upper and lower case here:
what would need either is refused.  Bytes have both, but a sign must not match a part of a
character, so no byte from 80 on can be asked for.
-/
import BlockingSync.Text.Blank
import BlockingSync.Text.Hexadecimal

namespace BlockingSync.Log.Pattern

/-- How signs are taken. -/
structure Modes where
  /-- Upper and lower case are not told apart. -/
  anyCase : Bool := false
  /-- Signs speak of characters, otherwise of bytes. -/
  unicode : Bool := true
  /-- Blanks and comments between signs do not count. -/
  spaced : Bool := false

/-- What stands at one place of a pattern. -/
inductive Sign where
  /-- A character, and whether it is written as a byte. -/
  | char (c : Char) (isByte : Bool)
  /-- A class with a letter for its name, or everything outside it. -/
  | kind (negated : Bool)
  /-- A place between characters, at an end of the text or of a word. -/
  | place (ofWord : Bool)

namespace Modes

/-- The modes after flags; those behind a minus sign are switched off. -/
def set (m : Modes) (flags : List Char) : Modes :=
  let on := flags.takeWhile (· ≠ '-')
  let off := flags.dropWhile (· ≠ '-')
  let value := fun (flag : Char) (old : Bool) => on.contains flag || old && !off.contains flag
  { anyCase := value 'i' m.anyCase, unicode := value 'u' m.unicode, spaced := value 'x' m.spaced }

/-! ### Blanks and comments -/

/-- The text without blanks and comments in front.  A comment goes from a hash sign to the
end of the line. -/
def dropSpace (inComment : Bool) : List Char → List Char
  | [] => []
  | c :: cs =>
    if inComment then dropSpace (c != '\n') cs
    else if Text.isBlank c then dropSpace false cs
    else if c = '#' then dropSpace true cs
    else c :: cs

/-- The text from the next character that counts. -/
def skip (m : Modes) (cs : List Char) : List Char :=
  if m.spaced then dropSpace false cs else cs

/-- The next character that counts, for a look ahead: it passes blanks and the hash sign of a
comment, but does not look for the end of the comment. -/
def ahead (m : Modes) (cs : List Char) : Option Char :=
  if m.spaced then
    match cs.dropWhile Text.isBlank with
    | '#' :: cs => (cs.dropWhile Text.isBlank).head?
    | cs => cs.head?
  else
    cs.head?

/-! ### What may stand in a pattern -/

/-- Whether a sign may stand outside of brackets. -/
def admits (m : Modes) : Sign → Bool
  | .char c isByte => if m.unicode then !m.anyCase else !isByte || c.toNat < 0x80
  | .kind negated => !m.unicode && !negated
  | .place ofWord => !m.unicode || !ofWord

/-- Whether any one character may be asked for. -/
def admitsAny (m : Modes) : Bool := m.unicode

end Modes

/-! ### Reading -/

/-- The characters that a backslash and a letter stand for. -/
def letterEscapes : List (Char × Char) :=
  [('a', '\x07'), ('f', '\x0c'), ('n', '\n'), ('r', '\r'), ('t', '\t'), ('v', '\x0b')]

/-- Reads the given number of hexadecimal digits onto `n`, the code point of a character. -/
def codePoint? (m : Modes) : Nat → Nat → List Char → Option (Char × List Char)
  | 0, n, cs => if n.isValidChar then some (Char.ofNat n, cs) else none
  | more + 1, n, cs =>
    match m.skip cs with
    | [] => none
    | c :: cs => do codePoint? m more (n * 16 + (← Text.hexValue? c)) cs

/-- Reads what follows a backslash. -/
def escape? (m : Modes) : List Char → Option (Sign × List Char)
  | [] => none
  | c :: cs =>
    match c with
    | 'x' => do let (d, cs) ← codePoint? m 2 0 cs; return (.char d true, cs)
    | 'u' => do let (d, cs) ← codePoint? m 4 0 cs; return (.char d false, cs)
    | 'U' => do let (d, cs) ← codePoint? m 8 0 cs; return (.char d false, cs)
    | 'd' | 's' | 'w' => some (.kind false, cs)
    | 'D' | 'S' | 'W' => some (.kind true, cs)
    | 'A' | 'z' => some (.place false, cs)
    | 'b' | 'B' | '<' | '>' => some (.place true, cs)
    | c =>
      match letterEscapes.lookup c with
      | some d => some (.char d false, cs)
      | none => if c.toNat < 0x80 && !c.isAlphanum then some (.char c false, cs) else none

/-- Reads a sign. -/
def sign? (m : Modes) : List Char → Option (Sign × List Char)
  | [] => none
  | '\\' :: cs => escape? m cs
  | c :: cs => some (.char c false, cs)

end BlockingSync.Log.Pattern
