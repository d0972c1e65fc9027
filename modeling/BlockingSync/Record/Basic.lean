/-
The persistent form of a queue: its capacity and its values, front first.

Waiting tasks are no part of it.  Capacity zero stands for no bound.
-/

namespace BlockingSync

/-- A machine word of 64 bits. -/
abbrev Word := Fin 18446744073709551616

/-- The word for a number; a number that does not fit wraps around. -/
def Word.wrap (n : Nat) : Word :=
  ⟨n % 18446744073709551616, Nat.mod_lt _ (by decide)⟩

/-- What is kept of a queue. -/
structure Record (α : Type) where
  capacity : Word
  values : List α
  deriving DecidableEq

end BlockingSync
