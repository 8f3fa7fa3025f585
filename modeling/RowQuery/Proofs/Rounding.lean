import Mathlib.Algebra.Order.Field.Basic
import Mathlib.Algebra.Order.Field.Power
import Mathlib.Algebra.Order.Field.Rat
import Mathlib.Tactic.FieldSimp
import Mathlib.Tactic.Linarith
import Mathlib.Tactic.Positivity
import Mathlib.Tactic.Ring
import RowQuery.Number.Binary64

/-!
# Correct rounding

A quotient is rounded to the nearest floating point number: `nearest_closest` says that no other finite
number is nearer, and `nearest_lt_infinity_iff` which quotients are too large for a finite one.

Both come from the way a number is found. The binary exponent of the quotient gives the unit of the
last place, and the quotient in this unit is rounded to an integer, a half to the even one.
-/

namespace RowQuery.Number

/-! ## Rounding to integers -/

/-- The integer nearest to a number, and the even one if two are equally near. -/
structure Rounds (x : ℚ) (q : ℕ) : Prop where
  near : |x - q| ≤ 1 / 2
  even : |x - q| = 1 / 2 → q % 2 = 0

namespace Rounds

variable {x y : ℚ} {q : ℕ}

/-- Less than a half is dropped. -/
theorem of_lt_half (nonneg : 0 ≤ y) (small : y < 1 / 2) : Rounds (q + y) q := by
  have distance : |(q : ℚ) + y - q| = y := by rw [add_sub_cancel_left, abs_of_nonneg nonneg]
  refine ⟨?_, ?_⟩
  · rw [distance]
    exact small.le
  · rw [distance]
    intro tie
    exact absurd tie small.ne

/-- More than a half is rounded up. -/
theorem of_half_lt (large : 1 / 2 < y) (below : y < 1) : Rounds (q + y) (q + 1) := by
  have distance : |(q : ℚ) + y - (q + 1 : ℕ)| = 1 - y := by
    push_cast
    rw [abs_of_nonpos (by linarith)]
    ring
  refine ⟨?_, ?_⟩
  · rw [distance]
    linarith
  · rw [distance]
    intro tie
    linarith

/-- A half goes to the even neighbour. -/
theorem of_half (q : ℕ) : Rounds (q + 1 / 2) (q + q % 2) := by
  refine ⟨?_, fun _ => by omega⟩
  rw [abs_le]
  rcases Nat.mod_two_eq_zero_or_one q with parity | parity <;> rw [parity] <;> push_cast <;>
    constructor <;> linarith

/-- An integer that is not greater is not greater after rounding. -/
theorem le_of_le (rounds : Rounds x q) {k : ℕ} (below : (k : ℚ) ≤ x) : k ≤ q := by
  have near := (abs_le.mp rounds.near).2
  have apart : (k : ℚ) < q + 1 := by linarith
  exact Nat.lt_succ_iff.mp (by exact_mod_cast apart)

/-- An integer that is not less is not less after rounding. -/
theorem ge_of_ge (rounds : Rounds x q) {k : ℕ} (above : x ≤ k) : q ≤ k := by
  have near := (abs_le.mp rounds.near).1
  have apart : (q : ℚ) < k + 1 := by linarith
  exact Nat.lt_succ_iff.mp (by exact_mod_cast apart)

/-- No integer is nearer. -/
theorem closest (rounds : Rounds x q) (k : ℤ) : |x - q| ≤ |x - k| := by
  by_cases same : (q : ℤ) = k
  · rw [← same]
    rfl
  · have apart : (1 : ℚ) ≤ |(q : ℚ) - k| := by
      have integers : 1 ≤ |(q : ℤ) - k| := Int.one_le_abs (sub_ne_zero.mpr same)
      exact_mod_cast integers
    have triangle : |(q : ℚ) - k| ≤ |x - q| + |x - k| := by
      rw [abs_sub_comm x q]
      exact abs_sub_le (q : ℚ) x k
    have near := rounds.near
    linarith

/-- Neighbours that are equally near are not both even. -/
theorem not_succ (rounds : Rounds x q) : ¬ Rounds x (q + 1) := by
  intro next
  have near := (abs_le.mp rounds.near).2
  have far := (abs_le.mp next.near).1
  push_cast at far
  have half : x = q + 1 / 2 := by linarith
  have first : q % 2 = 0 := rounds.even (by rw [half, add_sub_cancel_left, abs_of_pos one_half_pos])
  have second : (q + 1) % 2 = 0 := by
    apply next.even
    rw [half, abs_of_neg (by push_cast; linarith)]
    push_cast
    ring
  omega

/-- A number is rounded in one way only. -/
theorem unique (rounds : Rounds x q) {k : ℕ} (others : Rounds x k) : q = k := by
  have near := abs_le.mp rounds.near
  have otherNear := abs_le.mp others.near
  have upper : (q : ℚ) ≤ k + 1 := by linarith
  have lower : (k : ℚ) ≤ q + 1 := by linarith
  have atMost : q ≤ k + 1 := by exact_mod_cast upper
  have atLeast : k ≤ q + 1 := by exact_mod_cast lower
  rcases Nat.lt_trichotomy q k with less | same | greater
  · obtain rfl : k = q + 1 := by omega
    exact absurd others rounds.not_succ
  · exact same
  · obtain rfl : q = k + 1 := by omega
    exact absurd rounds others.not_succ

/-- An even integer is the result exactly if it is not farther than a half. -/
theorem eq_iff_of_even (rounds : Rounds x q) {k : ℕ} (even : k % 2 = 0) : q = k ↔ |x - k| ≤ 1 / 2 := by
  constructor
  · rintro rfl
    exact rounds.near
  · intro near
    exact rounds.unique ⟨near, fun _ => even⟩

/-- Whether the result is less than an even integer is decided a half below that integer. -/
theorem lt_succ_iff_of_odd (rounds : Rounds x q) {k : ℕ} (odd : k % 2 = 1) : q < k + 1 ↔ x < k + 1 / 2 := by
  constructor
  · intro less
    have near := (abs_le.mp rounds.near).2
    have atMost : (q : ℚ) ≤ k := by exact_mod_cast Nat.lt_succ_iff.mp less
    by_contra large
    have half : x = q + 1 / 2 := by linarith
    have same : (q : ℚ) = k := by linarith
    have same : q = k := by exact_mod_cast same
    have even := rounds.even (by rw [half, add_sub_cancel_left, abs_of_pos one_half_pos])
    omega
  · intro small
    have near := (abs_le.mp rounds.near).1
    have less : (q : ℚ) < k + 1 := by linarith
    exact_mod_cast less

/-- An even integer may be added before or after. -/
theorem add_even (rounds : Rounds x q) {k : ℕ} (even : k % 2 = 0) : Rounds (k + x) (k + q) := by
  have distance : |(k : ℚ) + x - (k + q : ℕ)| = |x - q| := by
    push_cast
    congr 1
    ring
  refine ⟨by rw [distance]; exact rounds.near, ?_⟩
  intro tie
  have := rounds.even (by rw [← distance]; exact tie)
  omega

end Rounds

theorem div_eq_add_mod_div (n : ℕ) {d : ℕ} (pos : 0 < d) :
    (n : ℚ) / d = (n / d : ℕ) + (n % d : ℕ) / d := by
  have positive : (0 : ℚ) < d := by exact_mod_cast pos
  field_simp
  exact_mod_cast (Nat.div_add_mod n d).symm

theorem rounds_roundHalfEven (n : ℕ) {d : ℕ} (pos : 0 < d) : Rounds (n / d) (roundHalfEven n d) := by
  have positive : (0 : ℚ) < d := by exact_mod_cast pos
  have upper : ((n % d : ℕ) : ℚ) / d < 1 := by
    rw [div_lt_one positive]
    exact_mod_cast Nat.mod_lt n pos
  have remainder : ((n % d : ℕ) : ℚ) / d = (2 * (n % d) : ℕ) / d / 2 := by
    push_cast
    ring
  rw [div_eq_add_mod_div n pos]
  simp only [roundHalfEven]
  split
  · next small =>
    have small : ((2 * (n % d) : ℕ) : ℚ) < d := by exact_mod_cast small
    apply Rounds.of_lt_half (by positivity)
    rw [remainder, div_lt_iff₀ two_pos, one_div_mul_cancel two_ne_zero, div_lt_one positive]
    exact small
  · next notSmall =>
    split
    · next large =>
      have large : (d : ℚ) < (2 * (n % d) : ℕ) := by exact_mod_cast large
      apply Rounds.of_half_lt _ upper
      rw [remainder, lt_div_iff₀ two_pos, one_div_mul_cancel two_ne_zero, one_lt_div positive]
      exact large
    · next notLarge =>
      have tie : ((2 * (n % d) : ℕ) : ℚ) = d := by exact_mod_cast (show 2 * (n % d) = d by omega)
      rw [remainder, tie, div_self positive.ne']
      exact Rounds.of_half _

namespace Binary64

/-! ## Scaling by powers of two -/

/-- The second part of a scaled fraction is no more zero than it was. -/
theorem scale_snd_pos (n : ℕ) {d : ℕ} (pos : 0 < d) (e : ℤ) : 0 < (scale n d e).2 := by
  unfold scale
  split
  · exact pos
  · exact Nat.shiftLeft_pos_iff.mpr pos

/-- A scaled fraction has the value that its name says. -/
theorem scale_div (n d : ℕ) (e : ℤ) : ((scale n d e).1 : ℚ) / (scale n d e).2 = n / d * 2 ^ e := by
  unfold scale
  split
  · next nonneg =>
    obtain ⟨k, rfl⟩ := Int.eq_ofNat_of_zero_le nonneg
    simp only [Int.toNat_natCast, Nat.shiftLeft_eq]
    push_cast
    rw [zpow_natCast]
    ring
  · next negative =>
    obtain ⟨k, hk⟩ := Int.eq_ofNat_of_zero_le (show 0 ≤ -e by omega)
    obtain rfl : e = -(k : ℤ) := by omega
    simp only [neg_neg, Int.toNat_natCast, Nat.shiftLeft_eq]
    push_cast
    rw [zpow_neg, zpow_natCast]
    field_simp

/-- The number of bits of a positive number, as a power of two around it. -/
theorem log2_spec {n : ℕ} (pos : 0 < n) : (2 : ℚ) ^ (n.log2 : ℤ) ≤ n ∧ (n : ℚ) < 2 ^ ((n.log2 : ℤ) + 1) := by
  constructor
  · rw [zpow_natCast]
    exact_mod_cast Nat.log2_self_le pos.ne'
  · rw [← Nat.cast_succ, zpow_natCast]
    exact_mod_cast Nat.lt_log2_self

/-- A fraction is at least one if its numerator is not less than its denominator. -/
theorem scale_le_iff (n : ℕ) {d : ℕ} (pos : 0 < d) (e : ℤ) :
    (scale n d (-e)).2 ≤ (scale n d (-e)).1 ↔ (2 : ℚ) ^ e ≤ n / d := by
  have positive : (0 : ℚ) < (scale n d (-e)).2 := by exact_mod_cast scale_snd_pos n pos (-e)
  have power : (0 : ℚ) < 2 ^ e := by positivity
  rw [← Nat.cast_le (α := ℚ), ← one_le_div positive, scale_div, zpow_neg, ← div_eq_mul_inv,
    one_le_div power]

/-- The binary exponent of a quotient is that of the greatest power of two in it. -/
theorem binaryExponent_spec {n d : ℕ} (numerator : 0 < n) (denominator : 0 < d) :
    (2 : ℚ) ^ binaryExponent n d ≤ n / d ∧ (n : ℚ) / d < 2 ^ (binaryExponent n d + 1) := by
  have positive : (0 : ℚ) < d := by exact_mod_cast denominator
  obtain ⟨lower, upper⟩ := log2_spec numerator
  obtain ⟨lower', upper'⟩ := log2_spec denominator
  have above : (n : ℚ) / d < 2 ^ ((n.log2 : ℤ) - d.log2 + 1) := by
    rw [div_lt_iff₀ positive]
    calc (n : ℚ) < 2 ^ ((n.log2 : ℤ) + 1) := upper
      _ = 2 ^ ((n.log2 : ℤ) - d.log2 + 1) * 2 ^ (d.log2 : ℤ) := by
        rw [← zpow_add₀ two_ne_zero]
        congr 1
        ring
      _ ≤ 2 ^ ((n.log2 : ℤ) - d.log2 + 1) * d := by gcongr
  have below : (2 : ℚ) ^ ((n.log2 : ℤ) - d.log2 - 1) ≤ n / d := by
    rw [le_div_iff₀ positive]
    calc (2 : ℚ) ^ ((n.log2 : ℤ) - d.log2 - 1) * d
        ≤ 2 ^ ((n.log2 : ℤ) - d.log2 - 1) * 2 ^ ((d.log2 : ℤ) + 1) := by gcongr
      _ = 2 ^ (n.log2 : ℤ) := by
        rw [← zpow_add₀ two_ne_zero]
        congr 1
        ring
      _ ≤ n := lower
  -- The guess from the numbers of bits is right or one too large.
  unfold binaryExponent
  by_cases reached : (scale n d (-((n.log2 : ℤ) - d.log2))).2 ≤ (scale n d (-((n.log2 : ℤ) - d.log2))).1
  · simp only [reached, if_true]
    exact ⟨(scale_le_iff n denominator _).mp reached, above⟩
  · simp only [reached, if_false, sub_add_cancel]
    rw [scale_le_iff n denominator, not_le] at reached
    exact ⟨below, reached⟩

/-! ## The nearest magnitude -/

/-- The exponent of the unit that a quotient is rounded in. -/
def unitExponent (n d : ℕ) : ℤ := max (binaryExponent n d - 52) (-1074)

/-- The quotient in this unit, rounded to an integer. -/
def significand (n d : ℕ) : ℕ :=
  roundHalfEven (scale n d (-unitExponent n d)).1 (scale n d (-unitExponent n d)).2

theorem nearest_eq {n : ℕ} (pos : 0 < n) (d : ℕ) :
    nearest n d = min infinity ((unitExponent n d + 1074).toNat * binade + significand n d) := by
  unfold nearest
  rw [if_neg pos.ne']
  rfl

section Quotient

variable {n d : ℕ}

theorem rounds_significand (denominator : 0 < d) :
    Rounds ((n : ℚ) / d * 2 ^ (-unitExponent n d)) (significand n d) := by
  have rounds := rounds_roundHalfEven (scale n d (-unitExponent n d)).1
    (scale_snd_pos n denominator (-unitExponent n d))
  rwa [scale_div] at rounds

theorem quotient_lt (numerator : 0 < n) (denominator : 0 < d) :
    (n : ℚ) / d < 2 ^ (unitExponent n d + 53) := by
  have upper := (binaryExponent_spec numerator denominator).2
  have exponent : binaryExponent n d + 1 ≤ unitExponent n d + 53 := by
    unfold unitExponent
    omega
  exact upper.trans_le (zpow_le_zpow_right₀ one_le_two exponent)

theorem le_quotient (numerator : 0 < n) (denominator : 0 < d) (normal : -1074 < unitExponent n d) :
    (2 : ℚ) ^ (unitExponent n d + 52) ≤ n / d := by
  have lower := (binaryExponent_spec numerator denominator).1
  have exponent : unitExponent n d + 52 = binaryExponent n d := by
    unfold unitExponent at normal ⊢
    omega
  rwa [exponent]

theorem significand_le (numerator : 0 < n) (denominator : 0 < d) : significand n d ≤ 2 ^ 53 := by
  apply (rounds_significand denominator).ge_of_ge
  rw [zpow_neg, ← div_eq_mul_inv, div_le_iff₀ (by positivity)]
  calc (n : ℚ) / d ≤ 2 ^ (unitExponent n d + 53) := (quotient_lt numerator denominator).le
    _ = (2 ^ 53 : ℕ) * 2 ^ unitExponent n d := by
      rw [zpow_add₀ two_ne_zero]
      push_cast
      ring

theorem le_significand (numerator : 0 < n) (denominator : 0 < d) (normal : -1074 < unitExponent n d) :
    2 ^ 52 ≤ significand n d := by
  apply (rounds_significand denominator).le_of_le
  rw [zpow_neg, ← div_eq_mul_inv, le_div_iff₀ (by positivity)]
  calc ((2 ^ 52 : ℕ) : ℚ) * 2 ^ unitExponent n d = 2 ^ (unitExponent n d + 52) := by
        rw [zpow_add₀ two_ne_zero]
        push_cast
        ring
    _ ≤ n / d := le_quotient numerator denominator normal

/-- A distance is measured in units. -/
theorem sub_scaled (x y : ℚ) (unit : ℤ) : |x - y * 2 ^ unit| = |x * 2 ^ (-unit) - y| * 2 ^ unit := by
  have power : (0 : ℚ) < 2 ^ unit := by positivity
  rw [← abs_of_pos power, ← abs_mul, abs_of_pos power, sub_mul, mul_assoc, ← zpow_add₀ two_ne_zero,
    neg_add_cancel, zpow_zero, mul_one]

/-- No multiple of the unit is nearer to the quotient. -/
theorem significand_closest (denominator : 0 < d) (k : ℤ) :
    |(n : ℚ) / d - significand n d * 2 ^ unitExponent n d| ≤ |(n : ℚ) / d - k * 2 ^ unitExponent n d| := by
  rw [sub_scaled, sub_scaled]
  exact mul_le_mul_of_nonneg_right ((rounds_significand denominator).closest k) (by positivity)

/-- The quotient is at most half a unit away. -/
theorem significand_near (denominator : 0 < d) :
    |(n : ℚ) / d - significand n d * 2 ^ unitExponent n d| ≤ 1 / 2 * 2 ^ unitExponent n d := by
  rw [sub_scaled]
  exact mul_le_mul_of_nonneg_right (rounds_significand denominator).near (by positivity)

end Quotient

/-! ## The value of a magnitude -/

/-- The number that a finite magnitude stands for. -/
def value (magnitude : ℕ) : ℚ := (decode magnitude).1 * 2 ^ (decode magnitude).2

theorem decode_of_lt {f : ℕ} (small : f < binade) : decode f = (f, -1074) := by
  simp [decode, Nat.div_eq_of_lt small, Nat.mod_eq_of_lt small]

theorem decode_add {k f : ℕ} (small : f < binade) :
    decode ((k + 1) * binade + f) = (f + binade, (k : ℤ) - 1074) := by
  have quotient : ((k + 1) * binade + f) / binade = k + 1 := by
    rw [Nat.mul_comm, Nat.mul_add_div (by decide), Nat.div_eq_of_lt small, Nat.add_zero]
  have remainder : ((k + 1) * binade + f) % binade = f := by
    rw [Nat.mul_comm, Nat.mul_add_mod, Nat.mod_eq_of_lt small]
  simp only [decode, quotient, remainder]
  rw [if_neg (Nat.succ_ne_zero k)]
  push_cast
  congr 1
  ring

/-- Every value is a multiple of a unit that is not below the least one, with few digits. -/
theorem decode_spec (magnitude : ℕ) :
    (decode magnitude).1 < 2 ^ 53 ∧ -1074 ≤ (decode magnitude).2 := by
  have small : magnitude % binade < binade := Nat.mod_lt _ (by decide)
  have size : binade + binade = 2 ^ 53 := by decide
  unfold decode
  generalize magnitude / binade = exponent
  by_cases zero : exponent = 0
  · simp only [zero, if_true]
    omega
  · simp only [zero, if_false]
    omega

/-- The fraction of a magnitude has its value. -/
theorem toFraction_spec (magnitude : ℕ) :
    0 < (toFraction magnitude).2 ∧
      ((toFraction magnitude).1 : ℚ) / (toFraction magnitude).2 = value magnitude := by
  refine ⟨scale_snd_pos _ Nat.one_pos _, ?_⟩
  rw [toFraction, scale_div, Nat.cast_one, div_one, value]

/-- A significand of at most 53 bits, or the next power of two, is put together with its unit. -/
theorem value_pack {unit : ℤ} {q : ℕ} (least : -1074 ≤ unit) (atMost : q ≤ 2 ^ 53)
    (normal : -1074 < unit → 2 ^ 52 ≤ q) :
    value ((unit + 1074).toNat * binade + q) = q * 2 ^ unit := by
  obtain ⟨k, rfl⟩ : ∃ k : ℕ, unit = k - 1074 := ⟨(unit + 1074).toNat, by omega⟩
  have size : binade = 2 ^ 52 := by decide
  have index : ((k : ℤ) - 1074 + 1074).toNat = k := by omega
  rw [index]
  by_cases subnormal : q < binade
  · obtain rfl : k = 0 := by
      by_contra positive
      have := normal (by omega)
      omega
    rw [Nat.zero_mul, Nat.zero_add, value, decode_of_lt subnormal]
    simp
  · by_cases carry : q = 2 ^ 53
    · have packed : k * binade + q = (k + 1 + 1) * binade + 0 := by
        rw [carry, size]
        ring
      rw [packed, value, decode_add (by decide), carry, size]
      push_cast
      rw [show (k : ℤ) + 1 - 1074 = k - 1074 + 1 by ring, zpow_add_one₀ two_ne_zero]
      ring
    · have packed : k * binade + q = (k + 1) * binade + (q - binade) := by
        rw [Nat.add_mul, Nat.one_mul]
        omega
      rw [packed, value, decode_add (by rw [size] at *; omega)]
      rw [Nat.sub_add_cancel (by omega)]

section Quotient

variable {n d : ℕ}

theorem unitExponent_ge (n d : ℕ) : -1074 ≤ unitExponent n d := le_max_right _ _

/-- The value of a quotient that is not too large. -/
theorem value_nearest (numerator : 0 < n) (denominator : 0 < d) (finite : nearest n d < infinity) :
    value (nearest n d) = significand n d * 2 ^ unitExponent n d := by
  rw [nearest_eq numerator, min_lt_iff, lt_self_iff_false, false_or] at finite
  rw [nearest_eq numerator, min_eq_right finite.le]
  exact value_pack (unitExponent_ge n d) (significand_le numerator denominator)
    (le_significand numerator denominator)

/-- No number is nearer to a quotient than the one it is rounded to. -/
theorem nearest_closest (denominator : 0 < d) (finite : nearest n d < infinity) (magnitude : ℕ) :
    |(n : ℚ) / d - value (nearest n d)| ≤ |(n : ℚ) / d - value magnitude| := by
  rcases Nat.eq_zero_or_pos n with rfl | numerator
  · have zero : value (nearest 0 d) = 0 := by simp [nearest, value, decode_of_lt (show 0 < binade by decide)]
    rw [zero]
    simp
  · rw [value_nearest numerator denominator finite, value]
    obtain ⟨digits, exponent⟩ := decode_spec magnitude
    rcases le_or_gt (unitExponent n d) (decode magnitude).2 with multiple | finer
    · -- A number with the same unit or a larger one is a multiple of the unit.
      obtain ⟨k, shift⟩ := Int.le.dest multiple
      have closest := significand_closest (n := n) denominator ((decode magnitude).1 * 2 ^ k : ℕ)
      rw [← shift, zpow_add₀ two_ne_zero, zpow_natCast]
      push_cast at closest
      rwa [mul_comm (2 ^ unitExponent n d : ℚ), ← mul_assoc]
    · -- A number with a smaller unit is less than the power of two that is not greater than the quotient.
      have below : ((decode magnitude).1 : ℚ) * 2 ^ (decode magnitude).2 ≤ (2 ^ 52 : ℤ) * 2 ^ unitExponent n d := by
        calc ((decode magnitude).1 : ℚ) * 2 ^ (decode magnitude).2
            ≤ 2 ^ 53 * 2 ^ (unitExponent n d - 1) := by
              gcongr
              · exact_mod_cast digits.le
              · exact one_le_two
              · omega
          _ = (2 ^ 52 : ℤ) * 2 ^ unitExponent n d := by
              rw [zpow_sub_one₀ two_ne_zero]
              push_cast
              ring
      have reached : ((2 ^ 52 : ℤ) : ℚ) * 2 ^ unitExponent n d ≤ n / d := by
        calc ((2 ^ 52 : ℤ) : ℚ) * 2 ^ unitExponent n d = 2 ^ (unitExponent n d + 52) := by
              rw [zpow_add₀ two_ne_zero]
              push_cast
              ring
          _ ≤ n / d := le_quotient numerator denominator (by omega)
      calc _ ≤ |(n : ℚ) / d - (2 ^ 52 : ℤ) * 2 ^ unitExponent n d| := significand_closest denominator _
        _ = (n : ℚ) / d - (2 ^ 52 : ℤ) * 2 ^ unitExponent n d := abs_of_nonneg (sub_nonneg.mpr reached)
        _ ≤ (n : ℚ) / d - (decode magnitude).1 * 2 ^ (decode magnitude).2 := sub_le_sub_left below _
        _ ≤ _ := le_abs_self _

/-- Half a unit beyond the greatest finite number, in that unit. -/
theorem limit_eq : (2 : ℚ) ^ 1024 - 2 ^ 970 = ((2 ^ 53 - 1 : ℕ) + 1 / 2) * 2 ^ (971 : ℤ) := by
  have power : (2 : ℚ) ^ (971 : ℤ) = 2 * 2 ^ 970 := by
    rw [show (971 : ℤ) = ((970 + 1 : ℕ) : ℤ) from rfl, zpow_natCast, pow_succ']
  have top : (2 : ℚ) ^ 1024 = 2 ^ 54 * 2 ^ 970 := pow_add 2 54 970
  rw [power, top]
  generalize (2 : ℚ) ^ 970 = y
  push_cast
  ring

/-- Half of the greatest power of two and less is below that. -/
theorem lt_limit {x : ℚ} (small : x < 2 ^ (1023 : ℤ)) : x < 2 ^ 1024 - 2 ^ 970 := by
  rw [limit_eq]
  calc x < 2 ^ ((52 : ℤ) + 971) := small
    _ = 2 ^ (52 : ℤ) * 2 ^ (971 : ℤ) := zpow_add₀ two_ne_zero _ _
    _ ≤ ((2 ^ 53 - 1 : ℕ) + 1 / 2) * 2 ^ (971 : ℤ) := by
      gcongr
      norm_num

/-- A quotient is too large for a finite number from half a unit beyond the greatest one on. -/
theorem nearest_lt_infinity_iff (denominator : 0 < d) :
    nearest n d < infinity ↔ (n : ℚ) / d < 2 ^ 1024 - 2 ^ 970 := by
  rcases Nat.eq_zero_or_pos n with rfl | numerator
  · have zero : nearest 0 d < infinity := by simp [nearest, infinity]
    refine iff_of_true zero (lt_limit ?_)
    rw [Nat.cast_zero, zero_div]
    positivity
  have atMost := significand_le numerator denominator
  have least := unitExponent_ge n d
  rw [nearest_eq numerator, min_lt_iff, lt_self_iff_false, false_or]
  rcases Int.lt_trichotomy (unitExponent n d) 971 with small | last | large
  · have packed : (unitExponent n d + 1074).toNat * binade + significand n d < infinity := by
      simp only [binade, infinity]
      omega
    have less : (n : ℚ) / d < 2 ^ (1023 : ℤ) :=
      (quotient_lt numerator denominator).trans_le (zpow_le_zpow_right₀ one_le_two (by omega))
    exact iff_of_true packed (lt_limit less)
  · have rounds := rounds_significand (n := n) denominator
    rw [last] at rounds ⊢
    have packed : (971 + 1074 : ℤ).toNat * binade + significand n d < infinity ↔
        significand n d < 2 ^ 53 - 1 + 1 := by
      simp only [binade, infinity]
      omega
    rw [packed, rounds.lt_succ_iff_of_odd (by decide), limit_eq, zpow_neg, ← div_eq_mul_inv,
      div_lt_iff₀ (by positivity)]
  · have normal := le_significand numerator denominator (by omega)
    have packed : ¬ (unitExponent n d + 1074).toNat * binade + significand n d < infinity := by
      simp only [binade, infinity]
      omega
    have notLess : ¬ (n : ℚ) / d < 2 ^ 1024 - 2 ^ 970 := by
      rw [not_lt, limit_eq]
      calc ((2 ^ 53 - 1 : ℕ) + 1 / 2 : ℚ) * 2 ^ (971 : ℤ) ≤ 2 ^ (53 : ℤ) * 2 ^ (971 : ℤ) := by
            gcongr
            norm_num
        _ = 2 ^ ((53 : ℤ) + 971) := (zpow_add₀ two_ne_zero _ _).symm
        _ ≤ 2 ^ (unitExponent n d + 52) := zpow_le_zpow_right₀ one_le_two (by omega)
        _ ≤ n / d := le_quotient numerator denominator (by omega)
    exact iff_of_false packed notLess

theorem nearest_le_infinity (n d : ℕ) : nearest n d ≤ infinity := by
  rcases Nat.eq_zero_or_pos n with rfl | numerator
  · simp [nearest]
  · rw [nearest_eq numerator]
    exact min_le_left _ _

/-- A number that is not greater than a quotient is not greater after rounding. -/
theorem le_value_nearest (denominator : 0 < d) (finite : nearest n d < infinity) {magnitude : ℕ}
    (below : value magnitude ≤ n / d) : value magnitude ≤ value (nearest n d) := by
  have closest := nearest_closest denominator finite magnitude
  rw [abs_of_nonneg (sub_nonneg.mpr below)] at closest
  have upper := (abs_le.mp closest).2
  linarith

/-- The unit of a quotient below a power of two. -/
theorem unitExponent_le (numerator : 0 < n) (denominator : 0 < d) {e : ℤ} (least : -1021 ≤ e)
    (small : (n : ℚ) / d < 2 ^ e) : unitExponent n d ≤ e - 53 := by
  by_contra greater
  have reached := (le_quotient numerator denominator (by omega)).trans_lt small
  rw [zpow_lt_zpow_iff_right₀ one_lt_two] at reached
  omega

/-- A quotient below a power of two moves by at most half a unit when it is rounded. -/
theorem nearest_near (denominator : 0 < d) (finite : nearest n d < infinity) {e : ℤ} (least : -1021 ≤ e)
    (small : (n : ℚ) / d < 2 ^ e) : |(n : ℚ) / d - value (nearest n d)| ≤ 2 ^ (e - 54) := by
  rcases Nat.eq_zero_or_pos n with rfl | numerator
  · have zero := nearest_closest denominator finite 0
    simp only [value, decode_of_lt (show 0 < binade by decide), Nat.cast_zero, zero_mul, zero_div, sub_zero,
      abs_zero] at zero ⊢
    exact zero.trans (by positivity)
  · rw [value_nearest numerator denominator finite]
    calc _ ≤ 1 / 2 * (2 : ℚ) ^ unitExponent n d := significand_near denominator
      _ ≤ 1 / 2 * 2 ^ (e - 53) := by
        gcongr
        · exact one_le_two
        · exact unitExponent_le numerator denominator least small
      _ = 2 ^ (e - 54) := by
        rw [show e - 53 = e - 54 + 1 by omega, zpow_add_one₀ two_ne_zero]
        ring

/-- Integers of at most 53 bits are floating point numbers. -/
theorem exists_value_eq {s : ℕ} (small : s < 2 ^ 53) : ∃ magnitude, value magnitude = s := by
  rcases Nat.eq_zero_or_pos s with rfl | positive
  · exact ⟨0, by simp [value, decode_of_lt (show 0 < binade by decide)]⟩
  have bound : ((s : ℕ) : ℚ) / (1 : ℕ) < 2 ^ (53 : ℤ) := by
    rw [Nat.cast_one, div_one]
    exact_mod_cast small
  have finite : nearest s 1 < infinity := by
    rw [nearest_lt_infinity_iff Nat.one_pos]
    exact lt_limit (bound.trans_le (zpow_le_zpow_right₀ one_le_two (by omega)))
  refine ⟨nearest s 1, ?_⟩
  -- The unit is at most one, so the integer is a multiple of it.
  have unit := unitExponent_le positive Nat.one_pos (by omega) bound
  obtain ⟨k, shift⟩ := Int.le.dest unit
  have closest := significand_closest (n := s) Nat.one_pos (s * 2 ^ k : ℕ)
  have multiple : (((s * 2 ^ k : ℕ) : ℤ) : ℚ) * 2 ^ unitExponent s 1 = s := by
    have power : (2 : ℚ) ^ k * 2 ^ unitExponent s 1 = 1 := by
      rw [← zpow_natCast, ← zpow_add₀ two_ne_zero, add_comm, shift]
      rfl
    push_cast
    rw [mul_assoc, power, mul_one]
  rw [multiple, Nat.cast_one, div_one, sub_self, abs_zero] at closest
  rw [value_nearest positive Nat.one_pos finite]
  exact (sub_eq_zero.mp (abs_nonpos_iff.mp closest)).symm

end Quotient

end Binary64

end RowQuery.Number
