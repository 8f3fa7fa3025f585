import RowQuery.Time.Fault

/-!
# ISO 8601 times

A date, written `YYYY-MM-DD`, `YYYYMMDD` or by week as `YYYY-Www`, `YYYY-Www-D`, `YYYYWww` or
`YYYYWwwD`; then, separated from it by any one character, a time of day `HH`, `HH:MM` or `HH:MM:SS`
with or without its colons and with an optional fraction; then an optional offset, `Z` or a signed
time of day.

The reader is lenient at the end of the time of day if an offset follows: there a single ASCII
character behind the last pair of digits, or anything behind six places of a fraction, is passed
over. A NUL counts as the end of the text where the text may end.
-/

namespace RowQuery.Time

/-- Reads exactly `count` ASCII digits in front of the rest, after digits worth `value`. -/
def takeDigits : (count value : Nat) → List Char → Option (Nat × List Char)
  | 0, value, cs => some (value, cs)
  | count + 1, value, c :: cs =>
    if c.isDigit then takeDigits count (10 * value + (c.toNat - '0'.toNat)) cs else none
  | _ + 1, _, [] => none

/-- Whether a text that may end here does: nothing follows, or a NUL. -/
def endsHere : List Char → Bool
  | [] => true
  | c :: _ => c == '\x00'

/-- How many of the characters are the date, or `none` if no date is that short. After the year and
    a week the length depends on what follows: a hyphen and two digits are a separator and hours,
    and of an unbroken row of digits pairs are hours, minutes and seconds. -/
def dateLength? (cs : List Char) : Option Nat :=
  let size := cs.length
  if size < 7 then none
  else if size = 7 then some 7
  else if cs[4]? = some '-' then
    if cs[5]? = some 'W' then
      if cs[8]? = some '-' then
        if size = 9 then none
        else if (cs[10]?.map Char.isDigit).getD false then some 8
        else some 10
      else some 8
    else some 10
  else if cs[4]? = some 'W' then
    let stop := 7 + ((cs.drop 7).takeWhile Char.isDigit).length
    if stop < 9 then some stop
    else if stop % 2 = 0 then some 7
    else some 8
  else some 8

/-- The date of a day of a week of a year, or `none` if there is no such day. Weeks of the year 0
    start before the calendar does, and their days have no month. -/
def weekDate? (year week day : Nat) : Option Date :=
  if week = 0 || 53 < week || (week = 53 && !hasWeek53 year) || day = 0 || 7 < day then none
  else if year = 0 then some { year := 1, month := 0, day := 1 }
  else some (Date.ofDayNumber (firstMonday year + ((week - 1) * 7 + (day - 1) : Nat)))

/-- Reads a date of `size` characters. -/
def readDate? (size : Nat) (cs : List Char) : Option Date := do
  let (year, rest) ← takeDigits 4 0 cs
  let (hyphens, rest) := match rest with
    | '-' :: more => (true, more)
    | other => (false, other)
  match rest with
  | 'W' :: rest =>
    let (week, rest) ← takeDigits 2 0 rest
    if cs.length - rest.length < size then
      match hyphens, rest with
      | true, '-' :: more =>
        let (day, _) ← takeDigits 1 0 more
        weekDate? year week day
      | true, _ => none
      | false, more =>
        let (day, _) ← takeDigits 1 0 more
        weekDate? year week day
    else weekDate? year week 1
  | rest =>
    let (month, rest) ← takeDigits 2 0 rest
    match hyphens, rest with
    | true, '-' :: more =>
      let (day, _) ← takeDigits 2 0 more
      some { year, month, day }
    | true, _ => none
    | false, more =>
      let (day, _) ← takeDigits 2 0 more
      some { year, month, day }

/-- A time of day, not yet held against the clock. -/
structure Clock where
  hour : Nat
  minute : Nat
  second : Nat
  micro : Nat
  deriving DecidableEq, Repr

/-- Up to six places of a fraction as microseconds, and whether the text ends behind them. Fewer than
    six places have to be all that is left; digits behind the sixth are dropped. -/
def readMicros? (cs : List Char) : Option (Nat × Bool) := do
  let places := min 6 cs.length
  let (value, rest) ← takeDigits places 0 cs
  some (value * Nat.pow 10 (6 - places), endsHere (rest.dropWhile Char.isDigit))

/-- What comes behind a pair of digits of a time of day. -/
inductive AfterPair where
  /-- The time of day is over; the flag says whether the text ends cleanly. -/
  | stop (clean : Bool)
  /-- A fraction follows. -/
  | fraction (rest : List Char)
  /-- Another pair follows, or a fraction if there is no other. -/
  | more (rest : List Char)
  /-- The separator is wrong. -/
  | fault

/-- Looks behind a pair of digits. A single ASCII character ends the time of day. With colons, a colon
    leads on; without, the next pair follows directly; a point or a comma leads to a fraction. -/
def afterPair (colons : Bool) : List Char → AfterPair
  | [] => .stop true
  | c :: rest =>
    if rest.isEmpty && c.toNat < 0x80 then .stop (endsHere [c])
    else if colons && c == ':' then .more rest
    else if c == '.' || c == ',' then .fraction rest
    else if colons then .fault
    else .more (c :: rest)

/-- Reads a time of day, and whether the text ends behind it. The character behind the hours decides
    whether colons are used. -/
def readClock? (cs : List Char) : Option (Clock × Bool) := do
  let (hour, rest) ← takeDigits 2 0 cs
  let colons := rest.head? == some ':'
  match afterPair colons rest with
  | .fault => none
  | .stop clean => some (⟨hour, 0, 0, 0⟩, clean)
  | .fraction rest =>
    let (micro, clean) ← readMicros? rest
    some (⟨hour, 0, 0, micro⟩, clean)
  | .more rest =>
    let (minute, rest) ← takeDigits 2 0 rest
    match afterPair colons rest with
    | .fault => none
    | .stop clean => some (⟨hour, minute, 0, 0⟩, clean)
    | .fraction rest =>
      let (micro, clean) ← readMicros? rest
      some (⟨hour, minute, 0, micro⟩, clean)
    | .more rest =>
      let (second, rest) ← takeDigits 2 0 rest
      match afterPair colons rest with
      | .fault => none
      | .stop clean => some (⟨hour, minute, second, 0⟩, clean)
      | .fraction rest | .more rest =>
        let (micro, clean) ← readMicros? rest
        some (⟨hour, minute, second, micro⟩, clean)

/-- Whether a character starts an offset. -/
def startsOffset (c : Char) : Bool := c == '+' || c == '-' || c == 'Z'

/-- The microseconds of an offset; one of less than a second is none. -/
def Clock.offset (sign : Int) (t : Clock) : Int :=
  let seconds := t.hour * 3600 + t.minute * 60 + t.second
  if seconds = 0 then 0 else sign * (seconds * 1000000 + t.micro : Nat)

/-- Reads a time of day and the offset behind it, if there is one. -/
def readTime? (cs : List Char) : Option (Clock × Option Int) :=
  let (body, zone) := cs.span fun c => !startsOffset c
  match readClock? body with
  | none => none
  | some (clock, clean) =>
    match zone with
    | [] => if clean then some (clock, none) else none
    | 'Z' :: rest => if endsHere rest then some (clock, some 0) else none
    | c :: rest =>
      match readClock? rest with
      | some (offset, true) => some (clock, some (offset.offset (if c = '-' then -1 else 1)))
      | _ => none

/-- The date, the time of day and the offset of a text. -/
def readParts? (cs : List Char) : Option (Date × Clock × Option Int) := do
  let size ← dateLength? cs
  let date ← readDate? size cs
  match cs.drop size with
  | [] => some (date, ⟨0, 0, 0, 0⟩, none)
  | _ :: time =>
    let (clock, offset) ← readTime? time
    some (date, clock, offset)

/-- Reads a moment. What is well formed is held against the limits in turn: the offset, the year, the
    month, the day, the hour, the minute, the second. -/
def ofIso (cs : List Char) : Except TimeFault Moment :=
  match readParts? cs with
  | none => .error (.malformed (String.ofList cs))
  | some (date, clock, offset) =>
    let span := offset.getD 0
    if 86400000000 ≤ span.natAbs then .error (.offsetTooLarge span)
    else if date.year < 1 || 9999 < date.year then .error (.yearOutOfRange date.year)
    else if date.month = 0 || 12 < date.month then .error .monthOutOfRange
    else if date.day = 0 || daysInMonth date.year date.month < date.day then .error .dayOutOfRange
    else if 23 < clock.hour then .error .hourOutOfRange
    else if 59 < clock.minute then .error .minuteOutOfRange
    else if 59 < clock.second then .error .secondOutOfRange
    else .ok {
      year := date.year.toNat, month := date.month, day := date.day
      hour := clock.hour, minute := clock.minute, second := clock.second
      micro := clock.micro, offset := offset }

end RowQuery.Time
