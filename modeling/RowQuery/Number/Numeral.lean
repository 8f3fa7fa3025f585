import RowQuery.Number.Binary64

/-!
# Numbers of both kinds

Integers and floating point numbers in one order: both are whole multiples of powers of two, except
for the infinities and what is no number.
-/

namespace RowQuery.Number

/-- An integer or a floating point number. -/
inductive Numeral where
  | undefined
  | infinite (negative : Bool)
  /-- The number `significand * 2 ^ exponent`. -/
  | finite (significand exponent : Int)
  deriving DecidableEq, Repr

namespace Numeral

/-- An integer. -/
def ofInt (n : Int) : Numeral := .finite n 0

/-- A floating point number. -/
def ofBinary64 (x : Binary64) : Numeral :=
  if Binary64.infinity < x.magnitude then .undefined
  else if x.magnitude = Binary64.infinity then .infinite x.negative
  else
    let (significand, exponent) := Binary64.decode x.magnitude
    .finite (if x.negative then -(significand : Int) else significand) exponent

/-- Whether a number is less than another. What is no number is neither less nor greater. -/
def less : Numeral → Numeral → Bool
  | .undefined, _ | _, .undefined => false
  | .infinite a, .infinite b => a && !b
  | .infinite a, .finite _ _ => a
  | .finite _ _, .infinite b => !b
  | .finite m e, .finite n f =>
    let unit := min e f
    m * ((1 <<< (e - unit).toNat : Nat) : Int) < n * ((1 <<< (f - unit).toNat : Nat) : Int)

/-- The greatest natural number that is not greater than a number, if there is a greatest; zero if
    there is none at all. -/
def floor? : Numeral → Option Nat
  | .undefined | .infinite false => none
  | .infinite true => some 0
  | .finite m e =>
    if 0 ≤ e then some (m.toNat <<< e.toNat) else some (m.toNat >>> (-e).toNat)

end Numeral

end RowQuery.Number
