import RowQuery.Time.Calendar

/-!
# Moments

A moment is a date and a time of day to the microsecond, with an offset from universal time or
without one. It has a text for answers and a display for messages.
-/

namespace RowQuery.Time

/-- A date and time of day. The offset is given in microseconds. -/
structure Moment where
  year : Nat
  month : Nat
  day : Nat
  hour : Nat
  minute : Nat
  second : Nat
  micro : Nat
  offset : Option Int
  deriving DecidableEq, Repr

/-- `n` in decimal digits, padded with zeros to `width`. -/
def padded (width n : Nat) : String :=
  let digits := Nat.toDigits 10 n
  String.ofList (List.replicate (width - digits.length) '0' ++ digits)

/-- A fraction of a second to six places, or nothing if it is zero. -/
def microText (micro : Nat) : String :=
  if micro = 0 then "" else "." ++ padded 6 micro

/-- An offset: sign, hours and minutes, and seconds where they are needed. -/
def offsetText (offset : Int) : String :=
  let total := offset.natAbs
  let seconds := total / 1000000
  let micro := total % 1000000
  (if offset < 0 then "-" else "+") ++ padded 2 (seconds / 3600) ++ ":" ++
    padded 2 (seconds / 60 % 60) ++
    (if seconds % 60 = 0 && micro = 0 then "" else ":" ++ padded 2 (seconds % 60) ++ microText micro)

/-- The text of a moment. -/
def Moment.text (t : Moment) : String :=
  padded 4 t.year ++ "-" ++ padded 2 t.month ++ "-" ++ padded 2 t.day ++ "T" ++
    padded 2 t.hour ++ ":" ++ padded 2 t.minute ++ ":" ++ padded 2 t.second ++ microText t.micro ++
    (t.offset.map offsetText).getD ""

/-- The display of a span of microseconds: whole days, which may be negative, then the seconds and
    microseconds beyond them, each only if it is not zero. -/
def displaySpan (micros : Int) : String :=
  let days := micros / 86400000000
  let rest := (micros % 86400000000).toNat
  let parts := [("days", days), ("seconds", (rest / 1000000 : Nat)),
    ("microseconds", (rest % 1000000 : Nat))]
  let shown := (parts.filter (·.2 != 0)).map fun (name, amount) => name ++ "=" ++ toString amount
  "datetime.timedelta(" ++ (if shown.isEmpty then "0" else ", ".intercalate shown) ++ ")"

/-- The display of an offset; universal time has a name of its own. -/
def displayOffset (offset : Int) : String :=
  if offset = 0 then "datetime.timezone.utc" else "datetime.timezone(" ++ displaySpan offset ++ ")"

/-- The display of a moment: seconds and microseconds are left out while they and all that follow
    are zero. -/
def Moment.display (t : Moment) : String :=
  let always := [t.year, t.month, t.day, t.hour, t.minute]
  let fields := if t.micro ≠ 0 then always ++ [t.second, t.micro]
    else if t.second ≠ 0 then always ++ [t.second]
    else always
  let zone := t.offset.elim [] fun offset => ["tzinfo=" ++ displayOffset offset]
  "datetime.datetime(" ++ ", ".intercalate (fields.map toString ++ zone) ++ ")"

end RowQuery.Time
