/-
Strings in a JSON text.

Writing escapes the quote, the backslash and the control characters and leaves every
other character alone.  Reading goes through the characters one at a time and keeps
in its state what the last of them began: an escape, the digits of a code unit, or a
surrogate pair.
-/
import BlockingSync.Json.Fault
import BlockingSync.Text.Hexadecimal
import BlockingSync.Text.Utf8

namespace BlockingSync.Json

open Text (hexDigit hexValue?)

/-! ### Writing -/

/-- One character as it stands between quotes. -/
def escapeChar (c : Char) : List Char :=
  if c = '"' then ['\\', '"']
  else if c = '\\' then ['\\', '\\']
  else if c = '\x08' then ['\\', 'b']
  else if c = '\x0c' then ['\\', 'f']
  else if c = '\n' then ['\\', 'n']
  else if c = '\r' then ['\\', 'r']
  else if c = '\t' then ['\\', 't']
  else if c.toNat < 32 then ['\\', 'u', '0', '0', hexDigit (c.toNat / 16), hexDigit (c.toNat % 16)]
  else [c]

/-- A string in quotes. -/
def writeText (cs : List Char) : List Char :=
  '"' :: cs.flatMap escapeChar ++ ['"']

/-! ### Reading -/

/-- The character that a backslash and this letter stand for. -/
def simpleEscape? (c : Char) : Option Char :=
  if c = '"' then some '"'
  else if c = '\\' then some '\\'
  else if c = '/' then some '/'
  else if c = 'b' then some '\x08'
  else if c = 'f' then some '\x0c'
  else if c = 'n' then some '\n'
  else if c = 'r' then some '\r'
  else if c = 't' then some '\t'
  else none

/-- Where reading stands inside a string. -/
inductive TextState where
  | plain
  /-- After a backslash. -/
  | escape
  /-- Inside a code unit: the first half of a pair if one came before, the number of
  digits still to come after the next, and the value of those read. -/
  | unit (first : Option Nat) (more : Nat) (value : Nat)
  /-- After the first half of a pair, where a backslash is due. -/
  | pair (first : Nat)
  /-- After that backslash, where the letter is due. -/
  | pairLetter (first : Nat)

/-- Whether at least four bytes follow, as the digits of a code unit need. -/
def hasUnitDigits (cs : List Char) : Bool :=
  4 ≤ ((cs.take 4).flatMap Text.Utf8.encodeChar).length

/-- Whether a code unit is the first half of a pair. -/
def isFirstHalf (u : Nat) : Bool := 0xD800 ≤ u && u ≤ 0xDBFF

/-- Whether a code unit is the second half of a pair. -/
def isSecondHalf (u : Nat) : Bool := 0xDC00 ≤ u && u ≤ 0xDFFF

/-- The character that two halves spell. -/
def joinHalves (first second : Nat) : Char :=
  Char.ofNat ((first - 0xD800) * 1024 + (second - 0xDC00) + 0x10000)

/-- Puts a character in front of what the rest of the string yields. -/
def prependChar (c : Char) (r : Except Fault (List Char × List Char)) :
    Except Fault (List Char × List Char) :=
  r.map fun (cs, rest) => (c :: cs, rest)

/-- Reads up to the closing quote: the characters, and what follows the quote. -/
def readTextFrom : TextState → List Char → Except Fault (List Char × List Char)
  | _, [] => .error .endInText
  | .plain, c :: cs =>
    if c = '"' then .ok ([], cs)
    else if c = '\\' then readTextFrom .escape cs
    else if c.toNat < 32 then .error .controlCharacter
    else prependChar c (readTextFrom .plain cs)
  | .escape, c :: cs =>
    if c = 'u' then
      if hasUnitDigits cs then readTextFrom (.unit none 3 0) cs else .error .endInText
    else
      match simpleEscape? c with
      | some d => prependChar d (readTextFrom .plain cs)
      | none => .error .badEscape
  | .unit first more value, c :: cs =>
    match hexValue? c with
    | none => .error .badEscape
    | some d =>
      let value := value * 16 + d
      match more, first with
      | more + 1, first => readTextFrom (.unit first more value) cs
      | 0, none =>
        if isSecondHalf value then .error .loneSurrogate
        else if isFirstHalf value then readTextFrom (.pair value) cs
        else prependChar (Char.ofNat value) (readTextFrom .plain cs)
      | 0, some first =>
        if isSecondHalf value then
          prependChar (joinHalves first value) (readTextFrom .plain cs)
        else .error .loneSurrogate
  | .pair first, c :: cs =>
    if c = '\\' then readTextFrom (.pairLetter first) cs else .error .halfPair
  | .pairLetter first, c :: cs =>
    if c = 'u' then
      if hasUnitDigits cs then readTextFrom (.unit (some first) 3 0) cs else .error .endInText
    else .error .halfPair

/-- Reads a string whose opening quote has been read. -/
def readText (cs : List Char) : Except Fault (List Char × List Char) :=
  readTextFrom .plain cs

/-- Reads up to the closing quote of a string that nobody wants; surrogates are not paired. -/
def skipTextFrom : TextState → List Char → Except Fault (List Char)
  | _, [] => .error .endInText
  | .escape, c :: cs =>
    if c = 'u' then
      if hasUnitDigits cs then skipTextFrom (.unit none 3 0) cs else .error .endInText
    else if (simpleEscape? c).isSome then skipTextFrom .plain cs
    else .error .badEscape
  | .unit first more _, c :: cs =>
    if (hexValue? c).isNone then .error .badEscape
    else
      match more with
      | more + 1 => skipTextFrom (.unit first more 0) cs
      | 0 => skipTextFrom .plain cs
  | _, c :: cs =>
    if c = '"' then .ok cs
    else if c = '\\' then skipTextFrom .escape cs
    else if c.toNat < 32 then .error .controlCharacter
    else skipTextFrom .plain cs

/-- Skips a string whose opening quote has been read. -/
def skipText (cs : List Char) : Except Fault (List Char) :=
  skipTextFrom .plain cs

end BlockingSync.Json
