/-
Values that events are asked for.

A value is written as a number or as a pattern that the text of the value has to match.  Most
numbers are patterns too, but one with a plus sign in front is not.
-/
import BlockingSync.Log.Pattern

namespace BlockingSync.Log

/-- A text without a sign in front. -/
def withoutSign : List Char → List Char
  | '+' :: cs => cs
  | '-' :: cs => cs
  | cs => cs

/-- Whether a text ends a number: with nothing, or with a power of ten. -/
def isExponent : List Char → Bool
  | [] => true
  | c :: cs =>
    let digits := withoutSign cs
    (c = 'e' || c = 'E') && !digits.isEmpty && digits.all Char.isDigit

/-- Whether a text without a sign is a number.  There is a digit on one side of the point. -/
def isUnsignedNumber (cs : List Char) : Bool :=
  let whole := cs.takeWhile Char.isDigit
  match cs.dropWhile Char.isDigit with
  | '.' :: rest =>
    let fraction := rest.takeWhile Char.isDigit
    !(whole.isEmpty && fraction.isEmpty) && isExponent (rest.dropWhile Char.isDigit)
  | rest => !whole.isEmpty && isExponent rest

/-- Whether a text is a number, an infinite one or none at all included. -/
def isNumber (cs : List Char) : Bool :=
  let unsigned := withoutSign cs
  isUnsignedNumber unsigned ||
    ["inf", "infinity", "nan"].contains (String.ofList (unsigned.map Char.toLower))

/-- Whether a text is a value that can be asked for. -/
def isValue (cs : List Char) : Bool :=
  isNumber cs || isPattern cs

end BlockingSync.Log
