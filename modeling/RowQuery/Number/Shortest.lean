import RowQuery.Number.Decimal

/-!
# Shortest decimal text of a floating point number

The fewest digits that read back as the number, and of those the ones nearest to it, written
positionally for moderate magnitudes and with a power of ten otherwise.
-/

namespace RowQuery.Number

namespace Binary64

/-- The greatest `e` with `10 ^ e ≤ n / d`, for positive `n` and `d`. -/
def decimalExponent (n d : Nat) : Int :=
  if d ≤ n then (Decimal.digitCount (n / d) : Int) - 1
  else
    let quotient := (d + n - 1) / n
    0 - (Decimal.digitCount (quotient - 1) : Int)

/-- Whether `digits * 10 ^ e` reads back as `magnitude`. -/
def readsBack (magnitude digits : Nat) (e : Int) : Bool :=
  Decimal.nearest digits e == magnitude

/-- Of the two neighbours of `magnitude` among the multiples of `10 ^ e` that read back, the nearer
    one; the even one if both are equally near. -/
def candidate? (magnitude : Nat) (e : Int) : Option Nat :=
  let (n, d) := toFraction magnitude
  let (m, k) := if 0 ≤ e then (n, d * Nat.pow 10 e.toNat) else (n * Nat.pow 10 (-e).toNat, d)
  let low := m / k
  match readsBack magnitude low e, readsBack magnitude (low + 1) e with
  | true, true => some (roundHalfEven m k)
  | true, false => some low
  | false, true => some (low + 1)
  | false, false => none

/-- The first of `count` grids, each ten times finer than the one before, that has a candidate. -/
def firstCandidate (magnitude : Nat) : Nat → Int → Nat × Int
  | 0, e => ((candidate? magnitude e).getD 0, e)
  | count + 1, e =>
    match candidate? magnitude e with
    | some digits => (digits, e)
    | none => firstCandidate magnitude count (e - 1)

/-- The digits and the power of ten of the shortest decimal that reads back; seventeen digits
    always do. -/
def shortest (magnitude : Nat) : Nat × Int :=
  let (n, d) := toFraction magnitude
  firstCandidate magnitude 16 (decimalExponent n d)

/-- The digits without the zeros at their end. -/
def dropFinalZeros (cs : List Char) : List Char :=
  (cs.reverse.dropWhile (· == '0')).reverse

/-- Digits `ds` with the point after the first `point` of them: positional while the point is not
    far from the digits, with a power of ten of at least two digits otherwise. -/
def place (ds : List Char) (point : Int) : List Char :=
  if -4 < point && point ≤ 16 then
    if point ≤ 0 then ['0', '.'] ++ List.replicate (-point).toNat '0' ++ ds
    else
      let whole := ds.take point.toNat ++ List.replicate (point.toNat - ds.length) '0'
      let places := ds.drop point.toNat
      whole ++ ['.'] ++ (if places.isEmpty then ['0'] else places)
  else
    let power := (point - 1).natAbs
    let exponent := Nat.toDigits 10 power
    ds.take 1 ++ (if ds.length ≤ 1 then [] else '.' :: ds.drop 1) ++
      ['e', if point - 1 < 0 then '-' else '+'] ++ (if power < 10 then ['0'] else []) ++ exponent

/-- The display of a floating point number. -/
def display (x : Binary64) : String :=
  let sign := if x.negative then "-" else ""
  if infinity < x.magnitude then "nan"
  else if x.magnitude = infinity then sign ++ "inf"
  else if x.magnitude = 0 then sign ++ "0.0"
  else
    let (digits, e) := shortest x.magnitude
    let ds := Nat.toDigits 10 digits
    sign ++ String.ofList (place (dropFinalZeros ds) (ds.length + e))

end Binary64

end RowQuery.Number
