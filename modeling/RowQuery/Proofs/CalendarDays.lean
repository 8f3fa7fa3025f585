import RowQuery.Time.Calendar

/-!
# Days and their numbers

The day with a given number is a day of the calendar, and it has that number. Splitting off centuries
and spans of four years leaves a day of a year, and looking at the months in turn leaves a day of a month.
-/

namespace RowQuery.Time

/-- The number of days of a year. -/
def daysInYear (year : Int) : Nat := if isLeap year then 366 else 365

/-- A date that the calendar has. -/
structure Date.Valid (date : Date) : Prop where
  month : 1 ≤ date.month ∧ date.month ≤ 12
  day : 1 ≤ date.day ∧ date.day ≤ daysInMonth date.year date.month

/-! ## Days of a year -/

@[simp] theorem daysBeforeMonth_one (year : Int) : daysBeforeMonth year 1 = 0 := rfl

theorem daysBeforeMonth_succ (year : Int) {month : Nat} (pos : 1 ≤ month) :
    daysBeforeMonth year (month + 1) = daysBeforeMonth year month + daysInMonth year month := by
  obtain ⟨before, rfl⟩ := Nat.exists_eq_add_of_le' pos
  simp [daysBeforeMonth, List.range'_concat, Nat.add_comm]

theorem daysBeforeMonth_thirteen (year : Int) : daysBeforeMonth year 13 = daysInYear year := by
  unfold daysInYear
  cases leap : isLeap year <;> simp [daysBeforeMonth, List.range', daysInMonth, leap]

/-- The month and the day of the month of a day that lies in one of the given months. -/
theorem monthAndDay_spec (year : Int) (count month rest : Nat) (pos : 1 ≤ month)
    (within : daysBeforeMonth year month + rest < daysBeforeMonth year (month + count)) :
    let found := monthAndDay year (List.range' month count) rest
    (month ≤ found.1 ∧ found.1 < month + count) ∧ (1 ≤ found.2 ∧ found.2 ≤ daysInMonth year found.1) ∧
      daysBeforeMonth year found.1 + found.2 = daysBeforeMonth year month + rest + 1 := by
  induction count generalizing month rest with
  | zero =>
    rw [Nat.add_zero] at within
    omega
  | succ count ih =>
    have next := daysBeforeMonth_succ year pos
    rw [List.range'_succ, monthAndDay]
    by_cases here : rest < daysInMonth year month
    · simp only [here, if_true]
      omega
    · simp only [here, if_false]
      have later := ih (month + 1) (rest - daysInMonth year month) (by omega)
        (by rw [next, Nat.add_assoc month 1 count, Nat.add_comm 1 count]; omega)
      simp only at later ⊢
      omega

/-! ## Days of the calendar -/

/-- The days before a year that is counted in spans of four centuries, centuries, spans of four years and
    years. -/
theorem daysBeforeYear_spans (spans400 : Int) {centuries spans4 years : Nat} (century : centuries ≤ 3)
    (span : spans4 ≤ 24) (year : years ≤ 3) :
    daysBeforeYear (spans400 * 400 + centuries * 100 + spans4 * 4 + years + 1) =
      spans400 * 146097 + centuries * 36524 + spans4 * 1461 + years * 365 := by
  simp only [daysBeforeYear, Int.add_sub_cancel]
  have fours : (spans400 * 400 + centuries * 100 + spans4 * 4 + years) / 4 =
      spans400 * 100 + centuries * 25 + spans4 := by omega
  have hundreds : (spans400 * 400 + centuries * 100 + spans4 * 4 + years) / 100 =
      spans400 * 4 + centuries := by omega
  have fourHundreds : (spans400 * 400 + centuries * 100 + spans4 * 4 + years) / 400 = spans400 := by omega
  rw [fours, hundreds, fourHundreds]
  omega

/-- The last year of a span of four is a leap year, unless it ends one of the first three centuries. -/
theorem isLeap_spans (spans400 : Int) {centuries spans4 : Nat}
    (span : spans4 < 24 ∨ spans4 = 24 ∧ centuries = 3) :
    isLeap (spans400 * 400 + centuries * 100 + spans4 * 4 + (3 : Nat) + 1) = true := by
  simp only [isLeap, Bool.and_eq_true, Bool.or_eq_true, beq_iff_eq, bne_iff_ne]
  omega

/-- How a day is split into spans, and when it is the last day of a year with 366 days. -/
theorem ofDayNumber_spans (number : Int) :
    ∃ (spans400 : Int) (centuries spans4 years rest : Nat),
      (number = spans400 * 146097 + centuries * 36524 + spans4 * 1461 + years * 365 + rest + 1 ∧
        centuries ≤ 3 ∧ spans4 ≤ 24 ∧ years ≤ 3 ∧ rest ≤ 365 ∧
        (rest = 365 → years = 3 ∧ (spans4 < 24 ∨ spans4 = 24 ∧ centuries = 3))) ∧
      ∃ year, year = spans400 * 400 + centuries * 100 + spans4 * 4 + years + 1 ∧
        Date.ofDayNumber number = ⟨year, (monthAndDay year (List.range' 1 12) rest).1,
          (monthAndDay year (List.range' 1 12) rest).2⟩ := by
  refine ⟨_, _, _, _, _, ?_, _, rfl, rfl⟩
  have whole := Int.mul_ediv_add_emod (number - 1) 146097
  have days400 : ((number - 1) % 146097).toNat < 146097 := by omega
  have nonneg : (((number - 1) % 146097).toNat : Int) = (number - 1) % 146097 := by omega
  generalize (number - 1) / 146097 = spans400 at *
  generalize ((number - 1) % 146097).toNat = rest400 at *
  generalize centuries_eq : min 3 (rest400 / 36524) = centuries at *
  generalize rest100_eq : rest400 - centuries * 36524 = rest100 at *
  -- Only behind the third century of four there is a day more.
  have days100 : rest100 ≤ 36524 ∧ (rest100 = 36524 → centuries = 3) := by omega
  generalize spans4_eq : rest100 / 1461 = spans4 at *
  generalize rest4_eq : rest100 - spans4 * 1461 = rest4 at *
  have days4 : spans4 ≤ 24 ∧ rest4 ≤ 1460 := by omega
  generalize years_eq : min 3 (rest4 / 365) = years at *
  generalize rest_eq : rest4 - years * 365 = rest at *
  have days : years ≤ 3 ∧ rest ≤ 365 ∧ (rest = 365 → years = 3) := by omega
  omega

/-- The year of a day, and the number of days of this year before it. -/
theorem exists_year (number : Int) :
    ∃ (year : Int) (rest : Nat), daysBeforeYear year + rest + 1 = number ∧ rest < daysInYear year ∧
      Date.ofDayNumber number = ⟨year, (monthAndDay year (List.range' 1 12) rest).1,
        (monthAndDay year (List.range' 1 12) rest).2⟩ := by
  obtain ⟨spans400, centuries, spans4, years, rest, ⟨split, century, span, last, within, leapDay⟩, year, rfl, made⟩ :=
    ofDayNumber_spans number
  have before := daysBeforeYear_spans spans400 century span last
  refine ⟨_, rest, by omega, ?_, made⟩
  unfold daysInYear
  by_cases leap : rest = 365
  · obtain ⟨rfl, ends⟩ := leapDay leap
    rw [isLeap_spans spans400 ends, if_pos rfl]
    omega
  · split <;> omega

/-- The day with a number is a day of the calendar and has that number. -/
theorem ofDayNumber_spec (number : Int) :
    (Date.ofDayNumber number).Valid ∧
      dayNumber (Date.ofDayNumber number).year (Date.ofDayNumber number).month
        (Date.ofDayNumber number).day = number := by
  obtain ⟨year, rest, counted, within, made⟩ := exists_year number
  rw [← daysBeforeMonth_thirteen, ← Nat.zero_add rest, ← daysBeforeMonth_one year] at within
  have found := monthAndDay_spec year 12 1 rest (Nat.le_refl 1) within
  rw [daysBeforeMonth_one] at found
  rw [made]
  generalize monthAndDay year (List.range' 1 12) rest = pair at found
  obtain ⟨month, day⟩ := pair
  refine ⟨⟨⟨found.1.1, Nat.lt_succ_iff.mp found.1.2⟩, found.2.1⟩, ?_⟩
  show daysBeforeYear year + daysBeforeMonth year month + day = number
  have sum : daysBeforeMonth year month + day = 0 + rest + 1 := found.2.2
  omega

/-- The years from 1 to 9999 are those of the first 3652059 days. -/
theorem year_ofDayNumber (number : Int) :
    (1 ≤ (Date.ofDayNumber number).year ↔ 1 ≤ number) ∧
      ((Date.ofDayNumber number).year ≤ 9999 ↔ number ≤ 3652059) := by
  obtain ⟨spans400, centuries, spans4, years, rest, ⟨split, century, span, last, within, leapDay⟩, year, rfl, made⟩ :=
    ofDayNumber_spans number
  rw [made]
  show (1 ≤ spans400 * 400 + centuries * 100 + spans4 * 4 + years + 1 ↔ _) ∧
    (spans400 * 400 + centuries * 100 + spans4 * 4 + years + 1 ≤ 9999 ↔ _)
  constructor <;> constructor <;> omega

end RowQuery.Time
