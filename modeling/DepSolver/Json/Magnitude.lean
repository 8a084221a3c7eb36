import DepSolver.Text.Numeral

/-!
# How large a number may be

A number is held as a significand of 64 bits and a power of ten. Its digits go into the significand
as long as there is room. The first one without room ends that: it and those behind it count for
the power if they stand before the point, and for nothing if they stand after it.

The number is finite unless the significand and the power of ten, each rounded to 53 bits, have a
product that rounds beyond the largest number with 53 bits and an exponent below 1024.
-/

namespace DepSolver.Json

/-- Puts digits behind a significand, and counts those that find no room. -/
def appendDigits (significand : Nat) : List Char → Nat × Nat
  | [] => (significand, 0)
  | c :: rest =>
    let next := 10 * significand + (Text.digit? c).getD 0
    if next < UInt64.size then appendDigits next rest else (significand, rest.length + 1)

/-- A significand times a power of ten. -/
structure Magnitude where
  significand : Nat
  power : Int
deriving DecidableEq, Repr

namespace Magnitude

/-- What stands for every written exponent of at least this size. -/
def maxExponent : Nat := 2147483648

/-- Reads the token of a number, without its sign. -/
def ofToken (token : String) : Magnitude :=
  let s := token.toList.dropWhile (· == '-')
  let whole := s.takeWhile Char.isDigit
  let fraction := ((s.dropWhile Char.isDigit).dropWhile (· == '.')).takeWhile Char.isDigit
  let exponent := (s.dropWhile fun c => c != 'e' && c != 'E').drop 1
  let size : Int :=
    (Text.digitsBelow? maxExponent 0 (exponent.filter Char.isDigit)).getD maxExponent
  let (before, extra) := appendDigits 0 whole
  let (significand, dropped) := appendDigits before fraction
  let shift : Int := extra - (fraction.length - dropped : Nat)
  { significand, power := if exponent.head? == some '-' then shift - size else shift + size }

/-- A natural number rounded to 53 significant bits. A tie goes to the even side. -/
def round (n : Nat) : Nat :=
  let unit := Nat.pow 2 (n.log2 - 52)
  let kept := n / unit
  let rest := 2 * (n % unit)
  (if unit < rest || (rest == unit && kept % 2 == 1) then kept + 1 else kept) * unit

/-- A number of at most 53 bits is its own rounding. -/
theorem round_of_log2_lt {n : Nat} (h : n.log2 < 53) : round n = n := by
  have step : n.log2 - 52 = 0 := by omega
  simp [round, step, Nat.mod_one]

/-- The least number that rounds to infinity: half a step beyond the largest finite one. -/
def leastInfinite : Nat := Nat.pow 2 1024 - Nat.pow 2 970

/-- The largest power of ten that a number is scaled by at once. -/
def maxPower : Int := 308

/-- Whether a magnitude is finite once it is rounded. Scaling down never overflows. -/
def isFinite (m : Magnitude) : Bool :=
  m.significand == 0 || m.power < 0 ||
    (m.power ≤ maxPower &&
      round m.significand * round (Nat.pow 10 m.power.toNat) < leastInfinite)

end Magnitude

end DepSolver.Json
