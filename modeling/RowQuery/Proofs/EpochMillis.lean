import RowQuery.Compile.Condition
import RowQuery.Proofs.CalendarDays
import RowQuery.Proofs.IntegerNumerals
import RowQuery.Proofs.Rounding

/-!
# Moments from milliseconds

A count of milliseconds since the epoch is divided by a thousand in floating point, and the quotient is
rounded to microseconds. So a moment is found by rounding twice, and it is the exact one if and only if
some floating point number is at most half a microsecond away from the exact number of seconds.

Up to 2 ^ 33 seconds on both sides of the epoch there is always such a number, and beyond there is not:
the units of the last place become larger than a microsecond. In the years from 1 to 9999 the result is
at most 15 microseconds off.
-/

namespace RowQuery.Time

open RowQuery.Number

/-! ## Microseconds and moments -/

/-- The number of microseconds from the epoch to a moment. -/
def Moment.instant (t : Moment) : Int :=
  ((dayNumber t.year t.month t.day - epochDay) * 86400 + t.hour * 3600 + t.minute * 60 + t.second) * 1000000 +
    t.micro - t.offset.getD 0

/-- A moment that the calendar and the clock have. -/
structure Moment.Valid (t : Moment) : Prop where
  date : Date.Valid ⟨t.year, t.month, t.day⟩
  hour : t.hour < 24
  minute : t.minute < 60
  second : t.second < 60
  micro : t.micro < 1000000

/-- The moment of a date, the seconds that have passed in the day and the microseconds of the next one. -/
def momentOn (date : Date) (inDay micro : Nat) : Moment :=
  { year := date.year.toNat, month := date.month, day := date.day
    hour := inDay / 3600, minute := inDay / 60 % 60, second := inDay % 60
    micro := micro, offset := some 0 }

section Date

variable {date : Date} {inDay micro : Nat}

theorem cast_year (positive : 1 ≤ date.year) : ((date.year.toNat : Nat) : Int) = date.year := by
  omega

theorem valid_momentOn (valid : date.Valid) (positive : 1 ≤ date.year) (seconds : inDay < 86400)
    (fraction : micro < 1000000) : (momentOn date inDay micro).Valid where
  date := by
    simp only [momentOn, cast_year positive]
    exact valid
  hour := by
    simp only [momentOn]
    omega
  minute := Nat.mod_lt _ (by decide)
  second := Nat.mod_lt _ (by decide)
  micro := fraction

theorem instant_momentOn (positive : 1 ≤ date.year) :
    (momentOn date inDay micro).instant =
      ((dayNumber date.year date.month date.day - epochDay) * 86400 + inDay) * 1000000 + micro := by
  simp only [Moment.instant, momentOn, cast_year positive, Option.getD_some]
  omega

end Date

/-- The date that many microseconds after the epoch. -/
def dateAt (micros : Int) : Date := Date.ofDayNumber (epochDay + micros / 1000000 / 86400)

/-- The moment that many microseconds after the epoch, if its year is not negative. -/
def momentAt (micros : Int) : Moment :=
  momentOn (dateAt micros) (micros / 1000000 % 86400).toNat (micros % 1000000).toNat

/-- The microseconds of the years from 1 to 9999. -/
def InYears (micros : Int) : Prop := -62135596800000000 ≤ micros ∧ micros < 253402300800000000

theorem inYears_iff {micros : Int} : InYears micros ↔ 1 ≤ (dateAt micros).year ∧ (dateAt micros).year ≤ 9999 := by
  have years := year_ofDayNumber (epochDay + micros / 1000000 / 86400)
  rw [dateAt, years.1, years.2, InYears, epochDay]
  omega

theorem ofMicros_eq (micros : Int) :
    ofMicros micros =
      if !secondsInRange (micros / 1000000) then .error .secondsOutOfRange
      else if !fitsSigned 32 ((dateAt micros).year - 1900) then .error .yearTooLarge
      else if (dateAt micros).year < 1 || 9999 < (dateAt micros).year then
        .error (.yearOutOfRange (Int.bmod (dateAt micros).year (1 <<< 32)))
      else .ok (momentAt micros) := rfl

/-- There is a moment in the years from 1 to 9999, and only there. -/
theorem ofMicros_eq_ok {micros : Int} {t : Moment} :
    ofMicros micros = .ok t ↔ InYears micros ∧ t = momentAt micros := by
  rw [ofMicros_eq]
  by_cases years : InYears micros
  · obtain ⟨first, last⟩ := inYears_iff.mp years
    have seconds : secondsInRange (micros / 1000000) = true := by
      obtain ⟨lower, upper⟩ := years
      rw [secondsInRange, decide_eq_true_eq]
      omega
    have fits : fitsSigned 32 ((dateAt micros).year - 1900) = true := by
      rw [fitsSigned, beq_iff_eq]
      apply Int.bmod_eq_of_le_mul_two <;> omega
    have inside : ((dateAt micros).year < 1 || 9999 < (dateAt micros).year) = false := by
      rw [Bool.or_eq_false_iff, decide_eq_false_iff_not, decide_eq_false_iff_not]
      omega
    simp only [seconds, fits, inside, Bool.not_true, Bool.false_eq_true, if_false, Except.ok.injEq, years, true_and]
    exact eq_comm
  · have outside : ((dateAt micros).year < 1 || 9999 < (dateAt micros).year) = true := by
      rw [inYears_iff] at years
      rw [Bool.or_eq_true, decide_eq_true_eq, decide_eq_true_eq]
      omega
    simp only [outside, years, false_and, iff_false, if_true]
    split
    · simp
    · split <;> simp

/-- The moment a number of microseconds after the epoch is a moment of the calendar, and this many
    microseconds after the epoch. -/
theorem instant_momentAt {micros : Int} (years : InYears micros) :
    (momentAt micros).Valid ∧ (momentAt micros).instant = micros := by
  obtain ⟨valid, number⟩ := ofDayNumber_spec (epochDay + micros / 1000000 / 86400)
  have positive := (inYears_iff.mp years).1
  rw [← dateAt] at valid number
  constructor
  · exact valid_momentOn valid positive (by omega) (by omega)
  · rw [momentAt, instant_momentOn positive, number]
    omega

/-! ## The two roundings -/

/-- The microseconds are those of the floating point number of seconds, rounded to even. -/
theorem rounds_microsOfSeconds (magnitude : Nat) :
    Rounds (Binary64.value magnitude * 1000000) (microsOfSeconds magnitude) := by
  obtain ⟨positive, fraction⟩ := Binary64.toFraction_spec magnitude
  rw [← fraction, microsOfSeconds]
  cases made : Binary64.toFraction magnitude with
  | mk n d =>
    rw [made] at positive
    have rest := rounds_roundHalfEven (n % d * 1000000) positive
    have rounds := rest.add_even (k := n / d * 1000000) (by omega)
    convert rounds using 1
    rw [div_eq_add_mod_div n positive]
    push_cast
    ring

section Magnitude

variable {millis : Nat}

theorem secondsMagnitude_lt_infinity (small : millis < 10 ^ 15) :
    secondsMagnitude millis < Binary64.infinity := by
  rw [secondsMagnitude, Binary64.nearest_lt_infinity_iff (by decide)]
  apply Binary64.lt_limit
  calc (millis : ℚ) / (1000 : ℕ) < 2 ^ (40 : ℤ) := by
        rw [div_lt_iff₀ (by norm_num)]
        norm_num
        exact_mod_cast small.trans (by decide)
    _ ≤ 2 ^ (1023 : ℤ) := zpow_le_zpow_right₀ one_le_two (by decide)

/-- A distance in microseconds and in seconds. -/
theorem sub_micros (seconds : ℚ) (millis : Nat) :
    |seconds * 1000000 - (1000 * millis : ℕ)| = |(millis : ℚ) / (1000 : ℕ) - seconds| * 1000000 := by
  have positive : (0 : ℚ) < 1000000 := by norm_num
  calc _ = |-((millis : ℚ) / (1000 : ℕ) - seconds) * 1000000| := by
        congr 1
        push_cast
        ring
    _ = _ := by rw [abs_mul, abs_neg, abs_of_pos positive]

/-- The microseconds are exact if a number of floating point is at most half of one away. -/
theorem micros_exact_of_near (finite : secondsMagnitude millis < Binary64.infinity) {magnitude : Nat}
    (near : |(millis : ℚ) / (1000 : ℕ) - Binary64.value magnitude| ≤ 1 / 2000000) :
    microsOfSeconds (secondsMagnitude millis) = 1000 * millis := by
  have nearer := (Binary64.nearest_closest (by decide) finite magnitude).trans near
  rw [(rounds_microsOfSeconds _).eq_iff_of_even (by omega), sub_micros, secondsMagnitude]
  linarith

theorem micros_exact_iff (finite : secondsMagnitude millis < Binary64.infinity) :
    microsOfSeconds (secondsMagnitude millis) = 1000 * millis ↔
      ∃ magnitude < Binary64.infinity, |(millis : ℚ) / (1000 : ℕ) - Binary64.value magnitude| ≤ 1 / 2000000 := by
  constructor
  · intro exact
    rw [(rounds_microsOfSeconds _).eq_iff_of_even (by omega), sub_micros] at exact
    exact ⟨_, finite, by linarith⟩
  · rintro ⟨magnitude, -, near⟩
    exact micros_exact_of_near finite near

/-- A whole number of seconds is a number of floating point. -/
theorem micros_whole {seconds : Nat} (small : seconds < 10 ^ 12) :
    microsOfSeconds (secondsMagnitude (seconds * 1000)) = 1000 * (seconds * 1000) := by
  obtain ⟨magnitude, whole⟩ := Binary64.exists_value_eq (s := seconds) (by omega)
  have near : |((seconds * 1000 : ℕ) : ℚ) / (1000 : ℕ) - Binary64.value magnitude| ≤ 1 / 2000000 := by
    rw [whole, Nat.cast_mul, mul_div_cancel_right₀ _ (by norm_num), sub_self, abs_zero]
    norm_num
  exact micros_exact_of_near (secondsMagnitude_lt_infinity (by omega)) near

/-- Up to 2 ^ 33 seconds half a unit of the last place is less than half a microsecond. -/
theorem micros_exact (small : millis ≤ 2 ^ 33 * 1000) :
    microsOfSeconds (secondsMagnitude millis) = 1000 * millis := by
  rcases small.eq_or_lt with rfl | less
  · exact micros_whole (by decide)
  have finite : secondsMagnitude millis < Binary64.infinity := secondsMagnitude_lt_infinity (by omega)
  have below : (millis : ℚ) / (1000 : ℕ) < 2 ^ (33 : ℤ) := by
    rw [div_lt_iff₀ (by norm_num)]
    exact_mod_cast less
  apply micros_exact_of_near finite
  calc _ ≤ (2 : ℚ) ^ ((33 : ℤ) - 54) := Binary64.nearest_near (by decide) finite (by decide) below
    _ ≤ 1 / 2000000 := by norm_num

/-- Up to 2 ^ 38 seconds half a unit of the last place is between 15 and 16 microseconds. -/
theorem micros_near (small : millis < 2 ^ 38 * 1000) :
    |(microsOfSeconds (secondsMagnitude millis) : ℤ) - 1000 * millis| ≤ 15 := by
  have finite : secondsMagnitude millis < Binary64.infinity := secondsMagnitude_lt_infinity (by omega)
  have below : (millis : ℚ) / (1000 : ℕ) < 2 ^ (38 : ℤ) := by
    rw [div_lt_iff₀ (by norm_num)]
    exact_mod_cast small
  have first : |(millis : ℚ) / (1000 : ℕ) - Binary64.value (secondsMagnitude millis)| ≤ 2 ^ ((38 : ℤ) - 54) :=
    Binary64.nearest_near (by decide) finite (by decide) below
  have second := (rounds_microsOfSeconds (secondsMagnitude millis)).near
  generalize microsOfSeconds (secondsMagnitude millis) = micros at *
  generalize Binary64.value (secondsMagnitude millis) = seconds at *
  have less : |(micros : ℚ) - (1000 * millis : ℕ)| < 16 := by
    calc _ ≤ |(micros : ℚ) - seconds * 1000000| + |seconds * 1000000 - (1000 * millis : ℕ)| := abs_sub_le _ _ _
      _ ≤ 1 / 2 + 2 ^ ((38 : ℤ) - 54) * 1000000 := by
        rw [abs_sub_comm, sub_micros]
        gcongr
      _ < 16 := by norm_num
  obtain ⟨lower, upper⟩ := abs_lt.mp less
  have lower : 1000 * millis < micros + 16 := by
    rw [← Nat.cast_lt (α := ℚ), Nat.cast_add]
    norm_num at lower ⊢
    linarith
  have upper : micros < 1000 * millis + 16 := by
    rw [← Nat.cast_lt (α := ℚ), Nat.cast_add]
    norm_num at upper ⊢
    linarith
  rw [abs_le]
  omega

/-- From 2 ^ 38 seconds on the microseconds are not less. -/
theorem micros_ge (large : 2 ^ 38 * 1000 ≤ millis) (finite : secondsMagnitude millis < Binary64.infinity) :
    2 ^ 38 * 1000000 ≤ microsOfSeconds (secondsMagnitude millis) := by
  obtain ⟨magnitude, whole⟩ := Binary64.exists_value_eq (s := 2 ^ 38) (by decide)
  have below : Binary64.value magnitude ≤ (millis : ℚ) / (1000 : ℕ) := by
    rw [whole, le_div_iff₀ (by norm_num)]
    exact_mod_cast large
  have atLeast := Binary64.le_value_nearest (by decide) finite below
  apply (rounds_microsOfSeconds _).le_of_le
  rw [whole] at atLeast
  push_cast at *
  rw [secondsMagnitude]
  linarith

end Magnitude

/-! ## Milliseconds -/

/-- The microseconds that a number of milliseconds is rounded to. -/
def roundedMicros (millis : Int) : Int :=
  if millis < 0 then -(microsOfSeconds (secondsMagnitude millis.natAbs) : Int)
  else microsOfSeconds (secondsMagnitude millis.natAbs)

theorem roundedMicros_eq_iff {millis : Int} :
    roundedMicros millis = 1000 * millis ↔
      microsOfSeconds (secondsMagnitude millis.natAbs) = 1000 * millis.natAbs := by
  rw [roundedMicros]
  split <;> omega

theorem roundedMicros_near {millis : Int} (small : millis.natAbs < 2 ^ 38 * 1000) :
    |roundedMicros millis - 1000 * millis| ≤ 15 := by
  have near := abs_le.mp (micros_near small)
  rw [roundedMicros, abs_le]
  split <;> omega

theorem roundedMicros_whole (seconds : Int) (small : seconds.natAbs < 10 ^ 12) :
    roundedMicros (seconds * 1000) = 1000 * (seconds * 1000) := by
  have magnitude : (seconds * 1000).natAbs = seconds.natAbs * 1000 := by omega
  rw [roundedMicros_eq_iff, magnitude]
  exact micros_whole small

/-- The milliseconds of the years from 1 to 9999. The microseconds may be off, but not so far that they
    come to lie in another year. -/
theorem inYears_roundedMicros {millis : Int} (finite : secondsMagnitude millis.natAbs < Binary64.infinity) :
    InYears (roundedMicros millis) ↔ -62135596800000 ≤ millis ∧ millis ≤ 253402300799999 := by
  rw [InYears]
  rcases Nat.lt_or_ge millis.natAbs (2 ^ 38 * 1000) with small | large
  · have near := abs_le.mp (roundedMicros_near small)
    -- The two ends are too close for the bound, but they are whole seconds.
    by_cases first : millis = -62135596800 * 1000
    · have whole := roundedMicros_whole (-62135596800) (by decide)
      rw [first]
      omega
    by_cases last : millis = 253402300800 * 1000
    · have whole := roundedMicros_whole 253402300800 (by decide)
      rw [last]
      omega
    omega
  · have atLeast := micros_ge large finite
    rw [roundedMicros]
    split <;> omega

/-- A number of milliseconds has a moment in the years from 1 to 9999, and only there. -/
theorem ofMillis_eq_ok {millis : Int} {t : Moment} :
    ofMillis millis = .ok t ↔
      (-62135596800000 ≤ millis ∧ millis ≤ 253402300799999) ∧ t = momentAt (roundedMicros millis) := by
  by_cases finite : secondsMagnitude millis.natAbs < Binary64.infinity
  · have rounded : ofMillis millis = ofMicros (roundedMicros millis) := if_neg (Nat.not_le.mpr finite)
    rw [rounded, ofMicros_eq_ok, inYears_roundedMicros finite]
  · have failed : ofMillis millis = .error .quotientTooLarge := if_pos (Nat.not_lt.mp finite)
    have outside : ¬ (-62135596800000 ≤ millis ∧ millis ≤ 253402300799999) := by
      rintro ⟨lower, upper⟩
      exact finite (secondsMagnitude_lt_infinity (by omega))
    rw [failed]
    simp [outside]

end RowQuery.Time

namespace RowQuery

open RowQuery.Number RowQuery.Time

/-! ## Texts -/

/-- The text of an integer is read as a time if it counts the milliseconds to one. -/
theorem convert_time_toString {filter : String} {millis : Int} {v : Value} :
    convert (some .time) filter (toString millis) = .ok v ↔ ∃ t, ofMillis millis = .ok t ∧ v = .time t := by
  have read := readInteger_toString millis
  have made : convert (some .time) filter (toString millis) =
      ((Value.readTime (toString millis).toList).map .time).mapError
        (.inconvertible filter (toString millis) .time) := by
    simp only [convert, Value.ofText, reduceCtorEq, if_false, trim_toString, Value.read]
  rw [made, Value.readTime, Value.isIntegerForm, read]
  by_cases long : maxDigits < (Nat.toDigits 10 millis.natAbs).length
  · -- A number of so many digits is far beyond the year 9999.
    have large : ¬ millis.natAbs < 10 ^ maxDigits := by
      rw [← Nat.length_toDigits_le_iff (by decide) (by decide)]
      exact Nat.not_le.mpr long
    have outside : ¬ ∃ t, ofMillis millis = .ok t ∧ v = .time t := by
      rintro ⟨t, ok, -⟩
      obtain ⟨⟨lower, upper⟩, -⟩ := ofMillis_eq_ok.mp ok
      have power : 10 ^ 15 ≤ 10 ^ maxDigits := Nat.pow_le_pow_right (by decide) (by decide)
      omega
    simp [long, outside, Value.ofInteger, bind, Except.bind, Except.map, Except.mapError]
  · cases made : ofMillis millis with
    | error fault => simp [long, made, Value.ofInteger, bind, Except.bind, Except.map, Except.mapError]
    | ok t => simp [long, made, Value.ofInteger, bind, Except.bind, Except.map, Except.mapError, eq_comm]

/-- A text that counts milliseconds is a time in the years from 1 to 9999, and only there. The time is
    at most 15 microseconds off. It is exact if and only if its microseconds are whole milliseconds,
    which is to say that a floating point number is at most half a microsecond away from the seconds;
    and there is one for every number of milliseconds up to 2 ^ 33 seconds. -/
theorem convert_millis (filter : String) (millis : Int) :
    ((∃ v, convert (some .time) filter (toString millis) = .ok v) ↔
      -62135596800000 ≤ millis ∧ millis ≤ 253402300799999) ∧
    ∀ v, convert (some .time) filter (toString millis) = .ok v →
      ∃ t, v = .time t ∧ t.Valid ∧ t.offset = some 0 ∧ |t.instant - 1000 * millis| ≤ 15 ∧
        (t.instant = 1000 * millis ↔ t.micro % 1000 = 0) ∧
        (t.instant = 1000 * millis ↔ ∃ magnitude < Binary64.infinity,
          |(millis.natAbs : ℚ) / (1000 : ℕ) - Binary64.value magnitude| ≤ 1 / 2000000) ∧
        (millis.natAbs ≤ 2 ^ 33 * 1000 → t.instant = 1000 * millis) := by
  simp only [convert_time_toString, ofMillis_eq_ok]
  refine ⟨⟨?_, ?_⟩, ?_⟩
  · rintro ⟨v, t, ⟨years, -⟩, -⟩
    exact years
  · intro years
    exact ⟨_, _, ⟨years, rfl⟩, rfl⟩
  · rintro v ⟨t, ⟨years, rfl⟩, rfl⟩
    have finite : secondsMagnitude millis.natAbs < Binary64.infinity :=
      secondsMagnitude_lt_infinity (by omega)
    obtain ⟨valid, instant⟩ := instant_momentAt ((inYears_roundedMicros finite).mpr years)
    have near : |roundedMicros millis - 1000 * millis| ≤ 15 := roundedMicros_near (by omega)
    refine ⟨_, rfl, valid, rfl, ?_, ?_, ?_, ?_⟩
    · rwa [instant]
    · have micro : (momentAt (roundedMicros millis)).micro = (roundedMicros millis % 1000000).toNat := rfl
      have bounds := abs_le.mp near
      rw [instant, micro]
      omega
    · rw [instant, roundedMicros_eq_iff, micros_exact_iff finite]
    · intro small
      rw [instant, roundedMicros_eq_iff]
      exact micros_exact small

/-- One millisecond beyond 2 ^ 33 seconds the time is a microsecond too early. -/
theorem convert_millis_early :
    ∃ t : Moment, convert (some .time) "" "8589934592001" = .ok (.time t) ∧
      t.instant = 1000 * 8589934592001 - 1 ∧ t.micro = 999 := by
  refine ⟨⟨2242, 3, 16, 12, 56, 32, 999, some 0⟩, ?_, ?_, ?_⟩
  · decide +kernel
  · decide +kernel
  · rfl

end RowQuery
