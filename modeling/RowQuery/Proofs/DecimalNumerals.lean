import Mathlib.Data.List.TakeWhile
import RowQuery.Proofs.Compilation
import RowQuery.Proofs.Rounding

/-!
# Decimal numerals and the floats they are rounded to

`Denotes` is the grammar of decimal numerals, with the number that each of them stands for. The reader
accepts the texts of the grammar and no others, so no word is read as a number, and a float is never a
NaN. But the grammar has numerals for numbers of every size: a numeral is read as an infinity if and only
if its number is at least half a unit beyond the greatest finite float.
-/

namespace RowQuery.Number

open RowQuery.Text

/-! ## The grammar -/

/-- `Signed cs negative rest`: the text `cs` is an optional sign and `rest`. -/
inductive Signed : List Char → Bool → List Char → Prop where
  | none {cs : List Char} : Signed cs false cs
  | plus {cs : List Char} : Signed ('+' :: cs) false cs
  | minus {cs : List Char} : Signed ('-' :: cs) true cs

/-- `Point cs places`: the text `cs` is empty, or a point and the digits `places`. -/
inductive Point : List Char → List Char → Prop where
  | none : Point [] []
  | point {places : List Char} (all : ∀ c ∈ places, isDigit c = true) : Point ('.' :: places) places

/-- `Power cs e`: the text `cs` is empty, or a letter and the exponent `e` with an optional sign. -/
inductive Power : List Char → Int → Prop where
  | none : Power [] 0
  | power {letter : Char} {cs digits : List Char} {negative : Bool} (isLetter : letter = 'e' ∨ letter = 'E')
      (sign : Signed cs negative digits) (nonempty : digits ≠ []) (all : ∀ c ∈ digits, isDigit c = true) :
      Power (letter :: cs) (withSign negative (digitsValue digits))

/-- `Denotes cs negative x`: the text `cs` is a decimal numeral for `x`, or for `-x` if it is negative. -/
inductive Denotes : List Char → Bool → ℚ → Prop where
  | mk {cs whole point places power : List Char} {negative : Bool} {e : Int}
      (sign : Signed cs negative (whole ++ (point ++ power))) (all : ∀ c ∈ whole, isDigit c = true)
      (point : Point point places) (power : Power power e) (nonempty : whole ≠ [] ∨ places ≠ []) :
      Denotes cs negative ((digitsValue whole + digitsValue places / 10 ^ places.length) * 10 ^ e)

/-- The digits of a text, followed by something that is none. -/
theorem takeWhile_isDigit {digits rest : List Char} (all : ∀ c ∈ digits, isDigit c = true)
    (other : ∀ c ∈ rest.head?, isDigit c = false) :
    (digits ++ rest).takeWhile isDigit = digits ∧ (digits ++ rest).dropWhile isDigit = rest := by
  rw [List.takeWhile_append_of_pos all, List.dropWhile_append_of_pos all]
  cases rest with
  | nil => simp
  | cons c cs => simp [other c rfl]

theorem takeSign_spec (cs : List Char) : Signed cs (takeSign cs).1 (takeSign cs).2 := by
  unfold takeSign
  split
  · exact .plus
  · exact .minus
  · exact .none

theorem Signed.takeSign_eq {cs rest : List Char} {negative : Bool} (signed : Signed cs negative rest)
    (plus : rest.head? ≠ some '+') (minus : rest.head? ≠ some '-') : takeSign cs = (negative, rest) := by
  cases signed with
  | plus => rfl
  | minus => rfl
  | none =>
    unfold takeSign
    split
    · simp at plus
    · simp at minus
    · rfl

/-- A text that starts with a digit starts with no sign. -/
theorem head?_ne_of_isDigit {digits : List Char} (all : ∀ c ∈ digits, isDigit c = true) (nonempty : digits ≠ [])
    (rest : List Char) {c : Char} (other : isDigit c = false) : (digits ++ rest).head? ≠ some c := by
  cases digits with
  | nil => exact absurd rfl nonempty
  | cons d ds =>
    rintro ⟨⟩
    rw [all c List.mem_cons_self] at other
    cases other

/-- Digits behind an optional sign are what follows the sign. -/
theorem Signed.takeSign_digits {cs digits : List Char} {negative : Bool} (signed : Signed cs negative digits)
    (all : ∀ c ∈ digits, isDigit c = true) (nonempty : digits ≠ []) : takeSign cs = (negative, digits) := by
  have plus := head?_ne_of_isDigit all nonempty [] (c := '+') (by decide)
  have minus := head?_ne_of_isDigit all nonempty [] (c := '-') (by decide)
  rw [List.append_nil] at plus minus
  exact signed.takeSign_eq plus minus

theorem readExponent_eq_some {cs : List Char} {e : Int} : Decimal.readExponent cs = some e ↔ Power cs e := by
  constructor
  · intro read
    cases cs with
    | nil =>
      cases read
      exact .none
    | cons c cs =>
      simp only [Decimal.readExponent, Option.ite_none_right_eq_some, Bool.and_eq_true, Bool.or_eq_true,
        decide_eq_true_eq, Bool.not_eq_true', List.isEmpty_eq_false_iff, List.all_eq_true] at read
      obtain ⟨⟨⟨isLetter, nonempty⟩, all⟩, value⟩ := read
      rw [← Option.some.inj value]
      exact .power isLetter (takeSign_spec cs) nonempty all
  · intro power
    cases power with
    | none => rfl
    | @power letter cs digits negative isLetter sign nonempty all =>
      have taken := sign.takeSign_digits all nonempty
      have digit : digits.all isDigit = true := List.all_eq_true.mpr all
      simp [Decimal.readExponent, taken, isLetter, nonempty, digit]

/-- The places behind a point, if there is one, and the rest. -/
def splitPlaces : List Char → List Char × List Char
  | '.' :: more => (more.takeWhile isDigit, more.dropWhile isDigit)
  | other => ([], other)

theorem exists_point (cs : List Char) :
    ∃ point, Point point (splitPlaces cs).1 ∧ cs = point ++ (splitPlaces cs).2 := by
  unfold splitPlaces
  split
  · refine ⟨_, .point fun c member => List.mem_takeWhile_imp member, ?_⟩
    rw [List.cons_append, List.takeWhile_append_dropWhile]
  · exact ⟨[], .none, rfl⟩

/-- What a power of ten starts with is neither a digit nor a point. -/
theorem Power.head {cs : List Char} {e : Int} (power : Power cs e) :
    ∀ c ∈ cs.head?, isDigit c = false ∧ c ≠ '.' := by
  cases power with
  | none => simp
  | power isLetter =>
    rintro c ⟨⟩
    rcases isLetter with rfl | rfl <;> decide

theorem splitPlaces_eq {point places power : List Char} {e : Int} (atPoint : Point point places)
    (isPower : Power power e) : splitPlaces (point ++ power) = (places, power) := by
  cases atPoint with
  | none =>
    unfold splitPlaces
    split
    case h_1 more same =>
      rw [List.nil_append] at same
      subst same
      exact absurd rfl (isPower.head '.' rfl).2
    case h_2 => rfl
  | point all =>
    obtain ⟨taken, dropped⟩ := takeWhile_isDigit all fun c member => (isPower.head c member).1
    simp [splitPlaces, taken, dropped]

/-! ## Reading -/

theorem digitsValue_append (xs ys : List Char) :
    digitsValue (xs ++ ys) = digitsValue xs * 10 ^ ys.length + digitsValue ys := by
  induction ys using List.reverseRecOn with
  | nil => simp [digitsValue]
  | append_singleton ys c ih =>
    have step (zs : List Char) : digitsValue (zs ++ [c]) = 10 * digitsValue zs + (digitValue? c).getD 0 := by
      simp [digitsValue]
    rw [← List.append_assoc, step, step, ih, List.length_append, List.length_singleton, pow_succ]
    ring

/-- The number of a decimal, without its sign. -/
def Decimal.value (d : Decimal) : ℚ := d.digits * 10 ^ d.exponent

/-- The digits before and after the point make one integer. -/
theorem value_places (whole places : List Char) (e : Int) :
    (digitsValue (whole ++ places) : ℚ) * 10 ^ (e - places.length) =
      (digitsValue whole + digitsValue places / 10 ^ places.length) * 10 ^ e := by
  have power : (10 : ℚ) ^ places.length ≠ 0 := by positivity
  rw [digitsValue_append, zpow_sub₀ (by norm_num), zpow_natCast]
  push_cast
  field_simp

theorem read?_eq (cs : List Char) :
    Decimal.read? cs =
      if ((takeSign cs).2.takeWhile isDigit).isEmpty &&
          (splitPlaces ((takeSign cs).2.dropWhile isDigit)).1.isEmpty then none
      else (Decimal.readExponent (splitPlaces ((takeSign cs).2.dropWhile isDigit)).2).map fun e =>
        { negative := (takeSign cs).1
          digits := digitsValue ((takeSign cs).2.takeWhile isDigit ++
            (splitPlaces ((takeSign cs).2.dropWhile isDigit)).1)
          exponent := e - (splitPlaces ((takeSign cs).2.dropWhile isDigit)).1.length } := rfl

/-- What is read is a numeral. -/
theorem denotes_of_read? {cs : List Char} {d : Decimal} (read : Decimal.read? cs = some d) :
    Denotes cs d.negative d.value := by
  rw [read?_eq, Option.ite_none_left_eq_some, Option.map_eq_some_iff] at read
  obtain ⟨nonempty, e, exponent, rfl⟩ := read
  obtain ⟨point, atPoint, rest⟩ := exists_point ((takeSign cs).2.dropWhile isDigit)
  have whole := List.takeWhile_append_dropWhile (p := isDigit) (l := (takeSign cs).2)
  have signed := takeSign_spec cs
  rw [← whole, rest] at signed
  rw [Decimal.value, value_places]
  refine .mk signed (fun c member => List.mem_takeWhile_imp member) atPoint (readExponent_eq_some.mp exponent) ?_
  simpa [Classical.or_iff_not_imp_left] using nonempty

/-- What follows the digits before the point is no digit. -/
theorem Point.head {point places power : List Char} {e : Int} (atPoint : Point point places)
    (isPower : Power power e) : ∀ c ∈ (point ++ power).head?, isDigit c = false := by
  cases atPoint with
  | none => exact fun c member => (isPower.head c member).1
  | point all =>
    rintro c ⟨⟩
    decide

/-- A numeral without its sign starts with a digit or a point. -/
theorem head?_ne_of_digits {whole point places : List Char} (all : ∀ c ∈ whole, isDigit c = true)
    (atPoint : Point point places) (nonempty : whole ≠ [] ∨ places ≠ []) (rest : List Char) {c : Char}
    (other : isDigit c = false) (notPoint : c ≠ '.') : (whole ++ (point ++ rest)).head? ≠ some c := by
  by_cases first : whole = []
  · cases atPoint with
    | none => simp [first] at nonempty
    | point all => simpa [first] using notPoint.symm
  · exact head?_ne_of_isDigit all first _ other

/-- Every numeral is read. -/
theorem Denotes.read? {cs : List Char} {negative : Bool} {x : ℚ} (denotes : Denotes cs negative x) :
    ∃ d, Decimal.read? cs = some d ∧ d.negative = negative ∧ d.value = x := by
  cases denotes with
  | @mk whole point places power _ e sign all atPoint isPower nonempty =>
    have plus := head?_ne_of_digits all atPoint nonempty power (c := '+') (by decide) (by decide)
    have minus := head?_ne_of_digits all atPoint nonempty power (c := '-') (by decide) (by decide)
    obtain ⟨taken, dropped⟩ := takeWhile_isDigit all (atPoint.head isPower)
    have given : (whole.isEmpty && places.isEmpty) = false := by
      rw [Bool.and_eq_false_iff, List.isEmpty_eq_false_iff, List.isEmpty_eq_false_iff]
      exact nonempty
    have exponent := readExponent_eq_some.mpr isPower
    refine ⟨⟨negative, digitsValue (whole ++ places), e - places.length⟩, ?_, rfl, value_places whole places e⟩
    rw [read?_eq, sign.takeSign_eq plus minus]
    simp only [taken, dropped, splitPlaces_eq atPoint isPower, given, exponent]
    rfl

theorem Signed.characters {cs rest : List Char} {negative : Bool} (signed : Signed cs negative rest) {c : Char}
    (member : c ∈ cs) : c = '+' ∨ c = '-' ∨ c ∈ rest := by
  cases signed with
  | none => exact .inr (.inr member)
  | plus => exact (List.mem_cons.mp member).imp_right .inr
  | minus => exact .inr (List.mem_cons.mp member)

/-- The characters of numerals. No other letters occur in them than those before the exponent. -/
def IsNumeralChar (c : Char) : Prop := isDigit c = true ∨ c ∈ ['+', '-', '.', 'e', 'E']

theorem Power.characters {cs : List Char} {e : Int} (power : Power cs e) {c : Char} (member : c ∈ cs) :
    IsNumeralChar c := by
  cases power with
  | none => cases member
  | power isLetter sign _ all =>
    rcases List.mem_cons.mp member with rfl | member
    · rcases isLetter with rfl | rfl <;> simp [IsNumeralChar]
    rcases sign.characters member with rfl | rfl | digit
    · simp [IsNumeralChar]
    · simp [IsNumeralChar]
    · exact .inl (all c digit)

theorem Denotes.characters {cs : List Char} {negative : Bool} {x : ℚ} (denotes : Denotes cs negative x) {c : Char}
    (member : c ∈ cs) : IsNumeralChar c := by
  cases denotes with
  | mk sign all atPoint isPower _ =>
    rcases sign.characters member with rfl | rfl | member
    · simp [IsNumeralChar]
    · simp [IsNumeralChar]
    rw [List.mem_append, List.mem_append] at member
    rcases member with digit | point | power
    · exact .inl (all c digit)
    · cases atPoint with
      | none => cases point
      | point digits =>
        rcases List.mem_cons.mp point with rfl | digit
        · simp [IsNumeralChar]
        · exact .inl (digits c digit)
    · exact isPower.characters power

/-! ## Rounding -/

/-- The number `n * 10 ^ e` as a quotient. -/
def quotient (n : ℕ) (e : ℤ) : ℕ × ℕ :=
  if 0 ≤ e then (n * 10 ^ e.toNat, 1) else (n, 10 ^ (-e).toNat)

theorem quotient_spec (n : ℕ) (e : ℤ) :
    0 < (quotient n e).2 ∧ ((quotient n e).1 : ℚ) / (quotient n e).2 = n * 10 ^ e := by
  rw [quotient]
  split
  case isTrue nonneg =>
    refine ⟨Nat.one_pos, ?_⟩
    rw [Nat.cast_mul, Nat.cast_pow, Nat.cast_one, div_one, ← zpow_natCast, Int.toNat_of_nonneg nonneg]
    rfl
  case isFalse negative =>
    refine ⟨by positivity, ?_⟩
    rw [Nat.cast_pow, ← zpow_natCast, Int.toNat_of_nonneg (by omega), zpow_neg, div_inv_eq_mul]
    rfl

/-- A number of `k` digits is at least the power of ten with `k - 1` zeros, and less than that with `k`. -/
theorem digitCount_spec {n : ℕ} (positive : 0 < n) :
    (10 : ℚ) ^ ((Decimal.digitCount n : ℤ) - 1) ≤ n ∧ (n : ℚ) < 10 ^ (Decimal.digitCount n : ℤ) := by
  have bound {k : ℕ} (positive : 0 < k) : Decimal.digitCount n ≤ k ↔ n < 10 ^ k :=
    Nat.length_toDigits_le_iff (by decide) positive
  have count : 0 < Decimal.digitCount n := Nat.length_toDigits_pos
  constructor
  · obtain ⟨k, made⟩ := Nat.exists_eq_succ_of_ne_zero count.ne'
    rw [made, Nat.succ_eq_add_one, Nat.cast_add, Nat.cast_one, add_sub_cancel_right, zpow_natCast]
    rcases Nat.eq_zero_or_pos k with rfl | more
    · exact_mod_cast positive
    · have large : 10 ^ k ≤ n := by
        rw [← Nat.not_lt, ← bound more, made]
        omega
      exact_mod_cast large
  · rw [zpow_natCast]
    exact_mod_cast (bound count).mp le_rfl

namespace Binary64

/-- A quotient below half of the least number is rounded to zero. -/
theorem nearest_eq_zero {n d : ℕ} (denominator : 0 < d) (small : (n : ℚ) / d < 2 ^ (-1075 : ℤ)) :
    nearest n d = 0 := by
  rcases Nat.eq_zero_or_pos n with rfl | numerator
  · simp [nearest]
  have below : (n : ℚ) / d < 2 ^ (-1021 : ℤ) := small.trans (zpow_lt_zpow_right₀ one_lt_two (by decide))
  have unit : unitExponent n d = -1074 :=
    le_antisymm (unitExponent_le numerator denominator le_rfl below) (unitExponent_ge n d)
  have rounds := rounds_significand (n := n) denominator
  have half : (n : ℚ) / d * 2 ^ (1074 : ℤ) < 1 / 2 := by
    calc (n : ℚ) / d * 2 ^ (1074 : ℤ) < 2 ^ (-1075 : ℤ) * 2 ^ (1074 : ℤ) := by gcongr
      _ = 2 ^ (-1 : ℤ) := (zpow_add₀ two_ne_zero _ _).symm
      _ = 1 / 2 := by norm_num
  rw [unit, neg_neg] at rounds
  have zero : significand n d = 0 := by
    have nonneg : (0 : ℚ) ≤ n / d * 2 ^ (1074 : ℤ) := by positivity
    have least := Rounds.of_lt_half (q := 0) nonneg half
    rw [Nat.cast_zero, zero_add] at least
    exact rounds.unique least
  rw [nearest_eq numerator, unit, zero]
  decide

/-- A quotient from the power of two beyond the greatest finite number on is rounded to infinity. -/
theorem nearest_eq_infinity {n d : ℕ} (denominator : 0 < d) (large : (2 : ℚ) ^ (1024 : ℤ) ≤ n / d) :
    nearest n d = infinity := by
  apply le_antisymm (nearest_le_infinity n d)
  rw [← not_lt, nearest_lt_infinity_iff denominator, not_lt]
  have top : (2 : ℚ) ^ (1024 : ℤ) = 2 ^ 1024 := zpow_natCast 2 1024
  have power : (0 : ℚ) < 2 ^ 970 := by positivity
  rw [top] at large
  exact (sub_le_self _ power.le).trans large

end Binary64

/-- Numbers of more than 310 digits are beyond the floats. -/
theorem two_pow_le_ten_pow {size : ℤ} (large : 310 ≤ size) : (2 : ℚ) ^ (1024 : ℤ) ≤ 10 ^ size := by
  calc (2 : ℚ) ^ (1024 : ℤ) ≤ 2 ^ ((205 * 5 : ℕ) : ℤ) := zpow_le_zpow_right₀ one_le_two (by decide)
    _ = (2 ^ 205) ^ 5 := by rw [zpow_natCast, pow_mul]
    _ ≤ (10 ^ 62) ^ 5 := by
      gcongr
      norm_num
    _ = 10 ^ ((62 * 5 : ℕ) : ℤ) := by rw [zpow_natCast, pow_mul]
    _ ≤ 10 ^ size := zpow_le_zpow_right₀ (by norm_num) large

/-- Numbers with more than 330 zeros after the point are below all positive floats. -/
theorem ten_pow_le_two_pow {size : ℤ} (small : size ≤ -330) : (10 : ℚ) ^ size ≤ 2 ^ (-1075 : ℤ) := by
  calc (10 : ℚ) ^ size ≤ 10 ^ (-((66 * 5 : ℕ) : ℤ)) := zpow_le_zpow_right₀ (by norm_num) small
    _ = ((10 ^ 66) ^ 5)⁻¹ := by rw [zpow_neg, zpow_natCast, pow_mul]
    _ ≤ ((2 ^ 215) ^ 5)⁻¹ := by
      gcongr
      norm_num
    _ = 2 ^ (-((215 * 5 : ℕ) : ℤ)) := by rw [zpow_neg, zpow_natCast, pow_mul]

/-- The digits that are left out of account for very large and very small numbers do not count. -/
theorem nearest_eq_quotient (n : ℕ) (e : ℤ) :
    Decimal.nearest n e = Binary64.nearest (quotient n e).1 (quotient n e).2 := by
  obtain ⟨denominator, same⟩ := quotient_spec n e
  rcases Nat.eq_zero_or_pos n with rfl | positive
  · have zero : (quotient 0 e).1 = 0 := by
      rw [quotient]
      split <;> simp
    simp [zero, Decimal.nearest, Binary64.nearest]
  obtain ⟨least, greatest⟩ := digitCount_spec positive
  have power : (0 : ℚ) < 10 ^ e := by positivity
  simp only [Decimal.nearest, positive.ne', if_false]
  by_cases large : 310 < (Decimal.digitCount n : ℤ) + e
  · rw [if_pos large]
    symm
    apply Binary64.nearest_eq_infinity denominator
    calc (2 : ℚ) ^ (1024 : ℤ) ≤ 10 ^ ((Decimal.digitCount n : ℤ) - 1 + e) := two_pow_le_ten_pow (by omega)
      _ = 10 ^ ((Decimal.digitCount n : ℤ) - 1) * 10 ^ e := zpow_add₀ (by norm_num) _ _
      _ ≤ n * 10 ^ e := by gcongr
      _ = (quotient n e).1 / (quotient n e).2 := same.symm
  rw [if_neg large]
  by_cases small : (Decimal.digitCount n : ℤ) + e < -330
  · rw [if_pos small]
    symm
    apply Binary64.nearest_eq_zero denominator
    calc ((quotient n e).1 : ℚ) / (quotient n e).2 = n * 10 ^ e := same
      _ < 10 ^ (Decimal.digitCount n : ℤ) * 10 ^ e := by gcongr
      _ = 10 ^ ((Decimal.digitCount n : ℤ) + e) := (zpow_add₀ (by norm_num) _ _).symm
      _ ≤ 2 ^ (-1075 : ℤ) := ten_pow_le_two_pow small.le
  rw [if_neg small, quotient]
  split <;> rfl

/-- `x` is what a number is rounded to, apart from the sign: never a NaN, infinite from half a unit beyond
    the greatest finite float on, and otherwise as near to the number as any float is. -/
structure Binary64.RoundOf (x : Binary64) (number : ℚ) : Prop where
  notNan : x.magnitude ≤ infinity
  finite : x.isFinite = true ↔ number < 2 ^ 1024 - 2 ^ 970
  closest : x.isFinite = true → ∀ other, |number - value x.magnitude| ≤ |number - value other|

theorem roundOf_toBinary64 (d : Decimal) : d.toBinary64.RoundOf d.value := by
  obtain ⟨denominator, same⟩ := quotient_spec d.digits d.exponent
  have made : d.toBinary64.magnitude = _ := nearest_eq_quotient d.digits d.exponent
  rw [Decimal.value, ← same]
  refine ⟨?_, ?_, ?_⟩
  · rw [made]
    exact Binary64.nearest_le_infinity _ _
  · rw [Binary64.isFinite, decide_eq_true_eq, made]
    exact Binary64.nearest_lt_infinity_iff denominator
  · rw [Binary64.isFinite, decide_eq_true_eq, made]
    exact Binary64.nearest_closest denominator

end RowQuery.Number

namespace RowQuery

open RowQuery.Number RowQuery.Text

/-! ## Values -/

/-- What is read as a float is a numeral, and the float is what its number is rounded to. -/
theorem float_of_convert {filter raw : String} {v : Value} (ok : convert (some .float) filter raw = .ok v) :
    ∃ x number, v = .float x ∧ Denotes (trim raw).toList x.negative number ∧ x.RoundOf number := by
  simp only [convert, Value.ofText, reduceCtorEq, if_false, Value.read] at ok
  cases read : Decimal.read? (trim raw).toList with
  | none => simp [read, Except.mapError] at ok
  | some d =>
    simp only [read, Except.mapError, Except.ok.injEq] at ok
    exact ⟨_, _, ok.symm, denotes_of_read? read, roundOf_toBinary64 d⟩

theorem convert_of_denotes {filter raw : String} {negative : Bool} {number : ℚ}
    (denotes : Denotes (trim raw).toList negative number) :
    ∃ x : Binary64, convert (some .float) filter raw = .ok (.float x) ∧ x.negative = negative ∧
      x.RoundOf number := by
  obtain ⟨d, read, rfl, rfl⟩ := denotes.read?
  refine ⟨d.toBinary64, ?_, rfl, roundOf_toBinary64 d⟩
  simp [convert, Value.ofText, Value.read, read, Except.mapError]

theorem convert_of_not_denotes {filter raw : String}
    (other : ¬ ∃ negative number, Denotes (trim raw).toList negative number) :
    convert (some .float) filter raw = .error (.inconvertible filter raw .float .notADecimal) := by
  cases read : Decimal.read? (trim raw).toList with
  | none => simp [convert, Value.ofText, Value.read, read, Except.mapError]
  | some d => exact absurd ⟨_, _, denotes_of_read? read⟩ other

/-- What a filter binds was converted from one of its raw values. -/
theorem Filter.exists_raw_of_bind {flt : Filter} {kind : Option ColumnKind} {values : List Value} {v : Value}
    (bound : flt.bind kind = .ok values) (member : v ∈ values) :
    ∃ raw ∈ flt.rawValues, convert kind flt.name raw = .ok v := by
  obtain ⟨t, test, rfl⟩ := map_eq_ok.mp bound
  cases Filter.tested_of_test test with
  | isNull => cases member
  | isNotNull => cases member
  | oneOf _ read => exact exists_left_of_forall₂ read member
  | compare _ single read =>
    rw [Sql.Test.args, List.mem_singleton] at member
    subst member
    exact ⟨_, by simp [Filter.rawValues_of_single single], read⟩

/-- A text is converted to a float if and only if it is a decimal numeral, which no word is, and otherwise
    refused. The float is the one that the number of the numeral is rounded to; so it is never a NaN, but
    an infinity if the number is at least half a unit beyond the greatest finite float. A filter binds
    such floats and nothing else. -/
theorem convert_float (flt : Filter) (raw : String) :
    (∀ negative number, Denotes (trim raw).toList negative number →
      (∀ c ∈ (trim raw).toList, IsNumeralChar c) ∧
      ∃ x : Binary64, convert (some .float) flt.name raw = .ok (.float x) ∧ x.negative = negative ∧
        x.RoundOf number) ∧
    ((¬ ∃ negative number, Denotes (trim raw).toList negative number) →
      convert (some .float) flt.name raw = .error (.inconvertible flt.name raw .float .notADecimal)) ∧
    ∀ values, flt.bind (some .float) = .ok values → ∀ v ∈ values, ∃ raw ∈ flt.rawValues, ∃ x number,
      v = .float x ∧ Denotes (trim raw).toList x.negative number ∧ x.RoundOf number := by
  refine ⟨?_, convert_of_not_denotes, ?_⟩
  · intro negative number denotes
    exact ⟨fun c member => denotes.characters member, convert_of_denotes denotes⟩
  · intro values bound v member
    obtain ⟨raw, listed, ok⟩ := Filter.exists_raw_of_bind bound member
    exact ⟨raw, listed, float_of_convert ok⟩

/-- A numeral of five characters is read as an infinity. -/
theorem convert_float_infinite :
    convert (some .float) "" "1e400" = .ok (.float ⟨false, Binary64.infinity⟩) ∧
      convert (some .float) "" "-1e400" = .ok (.float ⟨true, Binary64.infinity⟩) := by
  constructor <;> decide +kernel

end RowQuery
