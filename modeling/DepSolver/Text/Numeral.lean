/-!
# Decimal numerals of bounded size

A numeral is an optional `+` and at least one ASCII digit. Reading one fails when its value does
not lie below a given bound, so that a word-sized counter never wraps silently.
-/

namespace DepSolver.Text

/-- The value of an ASCII digit. -/
def digit? (c : Char) : Option Nat :=
  if c.isDigit then some (c.toNat - 48) else none

/-- The value of a row of digits, read on from the value `acc` of those before it. It fails at the
first digit that brings the value to `bound`. -/
def digitsBelow? (bound acc : Nat) : List Char → Option Nat
  | [] => some acc
  | c :: rest =>
    match digit? c with
    | some d => if 10 * acc + d < bound then digitsBelow? bound (10 * acc + d) rest else none
    | none => none

/-- Reads an unsigned numeral below `bound`. -/
def readNumeral? (bound : Nat) (s : List Char) : Option Nat :=
  let digits := match s with
    | '+' :: rest => rest
    | _ => s
  if digits.isEmpty then none else digitsBelow? bound 0 digits

end DepSolver.Text
