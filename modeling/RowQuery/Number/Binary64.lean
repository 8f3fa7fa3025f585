/-!
# Binary floating point of 64 bits

A number is its sign and the 63 bits below it, read as a natural number. `nearest` rounds a
quotient of naturals to the nearest magnitude, a half to the even neighbour; a carry out of the
significand runs into the exponent by itself, and everything from the first magnitude beyond the
finite ones on is infinity.
-/

namespace RowQuery.Number

/-- A floating point number. -/
structure Binary64 where
  negative : Bool
  magnitude : Nat
  deriving DecidableEq, Repr

/-- The quotient of `n` by `d`, rounded to the nearest integer, a half to the even one. -/
def roundHalfEven (n d : Nat) : Nat :=
  let q := n / d
  let r := n % d
  if 2 * r < d then q else if d < 2 * r then q + 1 else q + q % 2

namespace Binary64

/-- The magnitude of infinity: all exponent bits are set. -/
def infinity : Nat := 0x7FF0000000000000

/-- How many magnitudes share their exponent bits. -/
def binade : Nat := 0x10000000000000

/-- Whether the number is neither infinite nor a NaN. -/
def isFinite (x : Binary64) : Bool := x.magnitude < infinity

/-- The quotient of `n` by `d` multiplied by two to the power `e`, as a fraction. -/
def scale (n d : Nat) (e : Int) : Nat × Nat :=
  if 0 ≤ e then (n <<< e.toNat, d) else (n, d <<< (-e).toNat)

/-- The greatest `e` with `2 ^ e ≤ n / d`, for positive `n` and `d`. -/
def binaryExponent (n d : Nat) : Int :=
  let guess : Int := (n.log2 : Int) - (d.log2 : Int)
  let (m, k) := scale n d (-guess)
  if k ≤ m then guess else guess - 1

/-- The magnitude nearest to `n / d`. -/
def nearest (n d : Nat) : Nat :=
  if n = 0 then 0
  else
    let unit := max (binaryExponent n d - 52) (-1074)
    let (m, k) := scale n d (-unit)
    min infinity ((unit + 1074).toNat * binade + roundHalfEven m k)

/-- The significand and the binary exponent of a finite magnitude. -/
def decode (magnitude : Nat) : Nat × Int :=
  let exponent : Nat := magnitude / binade
  let fraction : Nat := magnitude % binade
  if exponent = 0 then (fraction, -1074) else (fraction + binade, (exponent : Int) - 1075)

/-- A finite magnitude as a fraction. -/
def toFraction (magnitude : Nat) : Nat × Nat :=
  let (significand, exponent) := decode magnitude
  scale significand 1 exponent

/-- The integer part of a finite number. -/
def integerPart? (x : Binary64) : Option Int :=
  if x.isFinite then
    let (n, d) := toFraction x.magnitude
    some (if x.negative then -((n / d : Nat) : Int) else ((n / d : Nat) : Int))
  else none

/-- Whether a finite number has no fraction. -/
def isWhole (x : Binary64) : Bool :=
  let (n, d) := toFraction x.magnitude
  n % d == 0

/-- The 64 bits as a natural number. -/
def bits (x : Binary64) : Nat :=
  (if x.negative then 0x8000000000000000 else 0) + x.magnitude

end Binary64

end RowQuery.Number
