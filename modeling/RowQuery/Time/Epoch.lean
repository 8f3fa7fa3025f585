import RowQuery.Number.Binary64
import RowQuery.Time.Fault

/-!
# Milliseconds since the epoch

A count of milliseconds since the first of January 1970 becomes a moment in universal time. The
count is first divided by a thousand in floating point, and the fraction of a second is then
rounded to microseconds; far from the epoch the result may be off by some microseconds.
-/

namespace RowQuery.Time

open RowQuery.Number

/-- The magnitude of the floating point number of seconds. -/
def secondsMagnitude (millis : Nat) : Nat :=
  Binary64.nearest millis 1000

/-- The microseconds of a finite number of seconds: the whole seconds exactly, the fraction rounded
    to the nearest microsecond, a half to the even one. -/
def microsOfSeconds (magnitude : Nat) : Nat :=
  let (n, d) := Binary64.toFraction magnitude
  n / d * 1000000 + roundHalfEven (n % d * 1000000) d

/-- Whether an integer fits a signed word of the given number of bits. -/
def fitsSigned (width : Nat) (n : Int) : Bool :=
  Int.bmod n (1 <<< width) == n

/-- Whether a number of seconds is in range. The range is that of a signed word of 64 bits with its
    ends rounded to floating point, as the seconds are; the upper end is rounded up to the power of
    two, so both powers belong to it. -/
def secondsInRange (seconds : Int) : Bool :=
  seconds.natAbs ≤ 1 <<< 63

/-- The moment that many microseconds after the epoch. Its year has to fit a word of 32 bits,
    counted from 1900, before it is held against the calendar's years. -/
def ofMicros (micros : Int) : Except TimeFault Moment :=
  let seconds := micros / 1000000
  let inDay := (seconds % 86400).toNat
  let date := Date.ofDayNumber (epochDay + seconds / 86400)
  if !secondsInRange seconds then .error .secondsOutOfRange
  else if !fitsSigned 32 (date.year - 1900) then .error .yearTooLarge
  else if date.year < 1 || 9999 < date.year then
    .error (.yearOutOfRange (Int.bmod date.year (1 <<< 32)))
  else .ok {
    year := date.year.toNat, month := date.month, day := date.day
    hour := inDay / 3600, minute := inDay / 60 % 60, second := inDay % 60
    micro := (micros % 1000000).toNat, offset := some 0 }

/-- The moment that many milliseconds after the epoch. -/
def ofMillis (millis : Int) : Except TimeFault Moment :=
  let magnitude := secondsMagnitude millis.natAbs
  if Binary64.infinity ≤ magnitude then .error .quotientTooLarge
  else ofMicros (if millis < 0 then -(microsOfSeconds magnitude : Int) else microsOfSeconds magnitude)

end RowQuery.Time
