import RowQuery.Number.Binary64
import RowQuery.Number.Integer

/-!
# Decimal numerals

A decimal numeral is a sign, digits with at most one point among or beside them, and an optional
power of ten. `Decimal.toBinary64` is the correctly rounded floating point number.
-/

namespace RowQuery.Number

open RowQuery.Text

/-- The number `digits * 10 ^ exponent`, with a sign that zero has too. -/
structure Decimal where
  negative : Bool
  digits : Nat
  exponent : Int
  deriving DecidableEq, Repr

namespace Decimal

/-- The power of ten behind the digits: nothing, or `e` or `E`, an optional sign and digits. -/
def readExponent : List Char → Option Int
  | [] => some 0
  | c :: cs =>
    let (negative, digits) := takeSign cs
    if (c = 'e' || c = 'E') && !digits.isEmpty && digits.all isDigit then
      some (withSign negative (digitsValue digits))
    else none

/-- Reads a decimal numeral; there is a digit before or after the point. -/
def read? (cs : List Char) : Option Decimal :=
  let (negative, body) := takeSign cs
  let whole := body.takeWhile isDigit
  let (places, rest) := match body.dropWhile isDigit with
    | '.' :: more => (more.takeWhile isDigit, more.dropWhile isDigit)
    | other => ([], other)
  if whole.isEmpty && places.isEmpty then none
  else (readExponent rest).map fun e =>
    { negative, digits := digitsValue (whole ++ places), exponent := e - places.length }

/-- How many decimal digits a natural number has. -/
def digitCount (n : Nat) : Nat := (Nat.toDigits 10 n).length

/-- The magnitude nearest to `n * 10 ^ e`. Numbers from `10 ^ 310` on are infinite and numbers below
    `10 ^ -330` zero, whatever their digits, so that no power of ten has to be huge. -/
def nearest (n : Nat) (e : Int) : Nat :=
  let size : Int := digitCount n + e
  if n = 0 then 0
  else if 310 < size then Binary64.infinity
  else if size < -330 then 0
  else if 0 ≤ e then Binary64.nearest (n * Nat.pow 10 e.toNat) 1
  else Binary64.nearest n (Nat.pow 10 (-e).toNat)

/-- The floating point number nearest to a decimal one. -/
def toBinary64 (d : Decimal) : Binary64 :=
  ⟨d.negative, nearest d.digits d.exponent⟩

end Decimal

end RowQuery.Number
