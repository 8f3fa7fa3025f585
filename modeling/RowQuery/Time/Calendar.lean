/-!
# The calendar

The proleptic Gregorian calendar. Days are numbered from the first of January of the year one,
which is day 1 and a Monday.
-/

namespace RowQuery.Time

/-- Whether a year has a 29th of February. -/
def isLeap (year : Int) : Bool :=
  year % 4 == 0 && (year % 100 != 0 || year % 400 == 0)

/-- The number of days of a month, counted from one. -/
def daysInMonth (year : Int) (month : Nat) : Nat :=
  if month = 2 then (if isLeap year then 29 else 28)
  else if month = 4 || month = 6 || month = 9 || month = 11 then 30
  else 31

/-- The number of days before the first of January of a year. -/
def daysBeforeYear (year : Int) : Int :=
  let past := year - 1
  past * 365 + past / 4 - past / 100 + past / 400

/-- The number of days of a year before one of its months. -/
def daysBeforeMonth (year : Int) (month : Nat) : Nat :=
  (List.range' 1 (month - 1)).foldl (fun days m => days + daysInMonth year m) 0

/-- The number of a day. -/
def dayNumber (year : Int) (month day : Nat) : Int :=
  daysBeforeYear year + daysBeforeMonth year month + day

/-- The number of the first of January 1970. -/
def epochDay : Int := 719163

/-- A day by its year, month and day of the month. -/
structure Date where
  year : Int
  month : Nat
  day : Nat
  deriving DecidableEq, Repr

/-- The month and the day of the month of a day of the year that is counted from zero, looking at
    the given months in turn. -/
def monthAndDay (year : Int) : List Nat → Nat → Nat × Nat
  | [], rest => (12, rest + 1)
  | month :: months, rest =>
    if rest < daysInMonth year month then (month, rest + 1)
    else monthAndDay year months (rest - daysInMonth year month)

/-- The day with a given number. Four centuries, then centuries, spans of four years and years are
    split off; the last century of four and the last year of a span may be a day longer. -/
def Date.ofDayNumber (number : Int) : Date :=
  let ahead := number - 1
  let spans400 := ahead / 146097
  let rest400 := (ahead % 146097).toNat
  let centuries := min 3 (rest400 / 36524)
  let rest100 := rest400 - centuries * 36524
  let spans4 := rest100 / 1461
  let rest4 := rest100 - spans4 * 1461
  let years := min 3 (rest4 / 365)
  let year := spans400 * 400 + centuries * 100 + spans4 * 4 + years + 1
  let (month, day) := monthAndDay year (List.range' 1 12) (rest4 - years * 365)
  { year, month, day }

/-- The day of the week, zero for Monday. -/
def weekday (number : Int) : Int := (number + 6) % 7

/-- The Monday of the first week of a year: the week that has the year's first Thursday. -/
def firstMonday (year : Int) : Int :=
  let newYear := dayNumber year 1 1
  let shift := weekday newYear
  newYear - shift + (if 3 < shift then 7 else 0)

/-- Whether a year has a week 53: it starts on a Thursday, or on a Wednesday and is a leap year. -/
def hasWeek53 (year : Int) : Bool :=
  let start := weekday (dayNumber year 1 1)
  start == 3 || (start == 2 && isLeap year)

end RowQuery.Time
