/-
Text in quotes, shown so that every character can be told.

A quote and a backslash are escaped, four control characters have letters of their
own, and a character that is invisible or attaches to its neighbour is written as
its code point in braces.  The apostrophe stays as it is.
-/
import BlockingSync.Text.Visible
import BlockingSync.Text.Attaching
import BlockingSync.Text.Hexadecimal

namespace BlockingSync.Text

/-- A character by its code point. -/
def codePointEscape (c : Char) : String :=
  "\\u\x7b" ++ hexadecimal c.toNat ++ "\x7d"

/-- One character as it stands between quotes. -/
def quotedChar (c : Char) : String :=
  if c = '"' then "\\\""
  else if c = '\\' then "\\\\"
  else if c = '\n' then "\\n"
  else if c = '\r' then "\\r"
  else if c = '\t' then "\\t"
  else if c.toNat = 0 then "\\0"
  else if isAttaching c || !isVisible c then codePointEscape c
  else c.toString

/-- The text in quotes. -/
def quoted (s : String) : String :=
  "\"" ++ String.join (s.toList.map quotedChar) ++ "\""

end BlockingSync.Text
