/-
Numbers in a JSON text.

A number without fraction and exponent whose value fits a word, unsigned or signed, is
an integer.  Any other number is a floating-point number, kept as it is written; it is
out of range when the binary64 value nearest to it is infinite.  A negative zero is
floating point too, since no integer has its sign.
-/
import BlockingSync.Json.Fault
import BlockingSync.Text.Unsigned

namespace BlockingSync.Json

open Text (digit? wordLimit)

/-- A number as it was read. -/
inductive Number where
  | integer (n : Int)
  | floating

/-- The nearest number with 53 significant bits; of two equally near, the even one. -/
def roundToDouble (n : Nat) : Nat :=
  if n < 9007199254740992 then n
  else
    let unit := 1 <<< (n.log2 - 52)
    let below := n / unit
    let twice := 2 * (n % unit)
    if twice < unit || (twice == unit && below % 2 == 0) then below * unit else (below + 1) * unit

/-- Whether a significand times a power of ten exceeds every finite binary64 number.  Both
factors are rounded before they are multiplied. -/
def isOutOfRange (significand : Nat) (exponent : Int) : Bool :=
  significand != 0 && 308 < exponent ||
    0 ≤ exponent && ((1 <<< 54) - 1) <<< 970 ≤
      roundToDouble significand * roundToDouble (Nat.pow 10 (min exponent 308).toNat)

/-- Whether a character is a decimal digit. -/
def isDigit (c : Char) : Bool := (digit? c).isSome

/-- Reads digits onto `acc` as long as the number fits a word. -/
def wordDigits (acc : Nat) : List Char → Nat × List Char
  | [] => (acc, [])
  | c :: cs =>
    match digit? c with
    | none => (acc, c :: cs)
    | some d => if acc * 10 + d < wordLimit then wordDigits (acc * 10 + d) cs else (acc, c :: cs)

/-- The value of a run of digits. -/
def digitsValue (cs : List Char) : Nat :=
  cs.foldl (fun acc c => acc * 10 + (digit? c).getD 0) 0

/-- Splits off the digits at the front. -/
def spanDigits (cs : List Char) : List Char × List Char :=
  (cs.takeWhile isDigit, cs.dropWhile isDigit)

/-- A floating-point number, unless it is out of range. -/
def floatingNumber (significand : Nat) (exponent : Int) (rest : List Char) :
    Except Fault (Number × List Char) :=
  if isOutOfRange significand exponent then .error .numberOutOfRange else .ok (.floating, rest)

/-- Reads an exponent whose letter has been read. -/
def readExponent (significand : Nat) (exponent : Int) (cs : List Char) :
    Except Fault (Number × List Char) :=
  let (negative, cs) :=
    match cs with
    | '-' :: cs => (true, cs)
    | '+' :: cs => (false, cs)
    | cs => (false, cs)
  match spanDigits cs with
  | ([], []) => .error .endInValue
  | ([], _ :: _) => .error .badNumber
  | (digits, rest) =>
    let shift : Int := digitsValue digits
    floatingNumber significand (if negative then exponent - shift else exponent + shift) rest

/-- Goes on after the digits of a floating-point number, where an exponent may follow. -/
def finishFloating (significand : Nat) (exponent : Int) : List Char →
    Except Fault (Number × List Char)
  | [] => floatingNumber significand exponent []
  | c :: cs =>
    if c = 'e' ∨ c = 'E' then readExponent significand exponent cs
    else floatingNumber significand exponent (c :: cs)

/-- Reads a fraction whose point has been read.  Digits beyond the word are dropped. -/
def readFraction (significand : Nat) (exponent : Int) (cs : List Char) :
    Except Fault (Number × List Char) :=
  match spanDigits cs with
  | ([], []) => .error .endInValue
  | ([], _ :: _) => .error .badNumber
  | (_ :: _, rest) =>
    let (significand, unread) := wordDigits significand cs
    finishFloating significand (exponent - (cs.length - unread.length : Nat)) rest

/-- The integer with the given sign and size, if some word holds it. -/
def integerOf (negative : Bool) (size : Nat) : Number :=
  if negative then
    if 0 < size ∧ size ≤ 9223372036854775808 then .integer (-size) else .floating
  else .integer size

/-- A number without fraction and exponent; the digits in `excess` no longer fit a word. -/
def wholeNumber (negative : Bool) (size : Nat) (excess rest : List Char) :
    Except Fault (Number × List Char) :=
  if excess.isEmpty then .ok (integerOf negative size, rest)
  else floatingNumber size excess.length rest

/-- Goes on after the integer digits that fit a word. -/
def finishNumber (negative : Bool) (size : Nat) (cs : List Char) :
    Except Fault (Number × List Char) :=
  let (excess, rest) := spanDigits cs
  match rest with
  | [] => wholeNumber negative size excess []
  | c :: tail =>
    if c = '.' then readFraction size excess.length tail
    else if c = 'e' ∨ c = 'E' then readExponent size excess.length tail
    else wholeNumber negative size excess rest

/-- Reads a number whose sign has been read. -/
def readMagnitude (negative : Bool) : List Char → Except Fault (Number × List Char)
  | [] => .error .endInValue
  | c :: cs =>
    match digit? c with
    | none => .error .badNumber
    | some 0 =>
      match cs with
      | [] => .ok (integerOf negative 0, [])
      | d :: _ => if isDigit d then .error .badNumber else finishNumber negative 0 cs
    | some _ =>
      let (size, rest) := wordDigits 0 (c :: cs)
      finishNumber negative size rest

/-- Reads a number. -/
def readNumber : List Char → Except Fault (Number × List Char)
  | '-' :: cs => readMagnitude true cs
  | cs => readMagnitude false cs

end BlockingSync.Json
