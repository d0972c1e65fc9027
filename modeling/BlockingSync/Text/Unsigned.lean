/-
Reading a natural number that has to fit a machine word.

The digits are read from the left.  Reading stops at the first character that is no
digit, or at the first digit that takes the number over the limit, whichever comes
first.
-/

namespace BlockingSync.Text

/-- Why a text is not a number below the limit. -/
inductive NumberFault where
  | empty
  | invalidDigit
  | tooLarge
  deriving DecidableEq

/-- The sentence that explains the fault. -/
def NumberFault.message : NumberFault → String
  | .empty => "cannot parse integer from empty string"
  | .invalidDigit => "invalid digit found in string"
  | .tooLarge => "number too large to fit in target type"

/-- The value of a decimal digit. -/
def digit? (c : Char) : Option Nat :=
  if '0' ≤ c ∧ c ≤ '9' then some (c.toNat - 48) else none

/-- Reads on with `acc` standing for the digits so far. -/
def readDigits (limit : Nat) (acc : Nat) : List Char → Except NumberFault Nat
  | [] => .ok acc
  | c :: cs =>
    match digit? c with
    | none => .error .invalidDigit
    | some d =>
      if acc * 10 + d < limit then readDigits limit (acc * 10 + d) cs else .error .tooLarge

/-- The number below `limit` that the text writes in decimal; one plus sign may precede it. -/
def readUnsigned (limit : Nat) : List Char → Except NumberFault Nat
  | [] => .error .empty
  | ['+'] => .error .invalidDigit
  | '+' :: cs => readDigits limit 0 cs
  | cs => readDigits limit 0 cs

/-- The first number too large for a machine word of 64 bits. -/
def wordLimit : Nat := 18446744073709551616

end BlockingSync.Text
