import RowQuery.Number.Shortest

/-!
# Rounded decimal text of a fraction

A fraction written with a given number of digits: positionally with places behind the point, with one
digit before the point and a power of ten, or in the shorter of the two ways. The exact value is
rounded once, a half to the even neighbour.
-/

namespace RowQuery.Number

/-- Digits with a point behind the first `whole` of them. Without digits behind it the point is left
    out, unless it is to be kept. -/
def pointed (digits : List Char) (whole : Nat) (keepPoint : Bool) : List Char :=
  let places := digits.drop whole
  digits.take whole ++ (if places.isEmpty && !keepPoint then [] else '.' :: places)

/-- A row of digits with zeros in front, up to `width`. -/
def zeroPadded (width : Nat) (digits : List Char) : List Char :=
  List.replicate (width - digits.length) '0' ++ digits

/-- A fraction with `places` digits behind the point. -/
def fixed (n d places : Nat) (keepPoint : Bool) : List Char :=
  let digits := zeroPadded (places + 1)
    (Nat.toDigits 10 (roundHalfEven (n * Nat.pow 10 places) d))
  pointed digits (digits.length - places) keepPoint

/-- The first `count` digits of a fraction, rounded, and the power of ten of the first one. All digits
    of zero are zeros. -/
def significant (n d count : Nat) : List Char × Int :=
  if n = 0 then (List.replicate count '0', 0)
  else
    let e := Binary64.decimalExponent n d
    let unit := e - ((count : Int) - 1)
    let rounded := if 0 ≤ unit then roundHalfEven n (d * Nat.pow 10 unit.toNat)
      else roundHalfEven (n * Nat.pow 10 (-unit).toNat) d
    let digits := Nat.toDigits 10 rounded
    (digits.take count, if count < digits.length then e + 1 else e)

/-- A power of ten: its sign and at least two digits. -/
def powerText (e : Int) : List Char :=
  ['e', if e < 0 then '-' else '+'] ++ zeroPadded 2 (Nat.toDigits 10 e.natAbs)

/-- A fraction with one digit before the point, `places` behind it and a power of ten. -/
def scientific (n d places : Nat) (keepPoint : Bool) : List Char :=
  let (digits, e) := significant n d (places + 1)
  pointed digits 1 keepPoint ++ powerText e

/-- A fraction with `count` digits, of which there is at least one: positionally, or with a power of
    ten if that is below minus four or the digits do not reach the point. Zeros at the end of the
    digits are left out, unless all digits are to be kept. -/
def general (n d count : Nat) (keepAll : Bool) : List Char :=
  let count := max count 1
  let (all, e) := significant n d count
  let digits := if keepAll then all else Binary64.dropFinalZeros all
  let digits := if digits.isEmpty then ['0'] else digits
  if e < -4 || (count : Int) ≤ e then pointed digits 1 keepAll ++ powerText e
  else if e < 0 then pointed (List.replicate (-e).toNat '0' ++ digits) 1 keepAll
  else
    let whole := e.toNat + 1
    pointed (digits ++ List.replicate (whole - digits.length) '0') whole keepAll

end RowQuery.Number
