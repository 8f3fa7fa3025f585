import RowQuery.Conversion
import RowQuery.Proofs.FilterPrinting

/-!
# Integers that are written and read

The digits of a number are read as that number, and so is the text of an integer, as long as it has not
more digits than are read at all.
-/

namespace RowQuery.Text

theorem digitValue?_of_isDigit {c : Char} (digit : c.isDigit = true) :
    digitValue? c = some (c.toNat - '0'.toNat) := by
  obtain ⟨lower, upper⟩ := Char.isDigit_iff_toNat.mp digit
  have found : (digitZeros.find? fun z => z ≤ c.toNat && c.toNat < z + 10) = some 0x30 := by
    apply List.find?_cons_of_pos
    rw [Bool.and_eq_true, decide_eq_true_eq, decide_eq_true_eq]
    exact ⟨lower, Nat.lt_succ_iff.mpr upper⟩
  rw [digitValue?, found]
  rfl

theorem isDigit_of_isDigit {c : Char} (digit : c.isDigit = true) : isDigit c = true := by
  rw [isDigit, digitValue?_of_isDigit digit]
  rfl

theorem isBlank_of_isDigit {c : Char} (digit : c.isDigit = true) : isBlank c = false := by
  obtain ⟨lower, upper⟩ := Char.isDigit_iff_toNat.mp digit
  have lower : 48 ≤ c.toNat := lower
  have upper : c.toNat ≤ 57 := upper
  simp [isBlank]
  omega

/-- The value of a row of ASCII digits. -/
theorem digitsValue_eq_ofDigitChars {cs : List Char} (digits : ∀ c ∈ cs, c.isDigit = true) :
    digitsValue cs = Nat.ofDigitChars 10 cs 0 := by
  have fold (start : Nat) : cs.foldl (fun n c => 10 * n + (digitValue? c).getD 0) start =
      Nat.ofDigitChars 10 cs start := by
    induction cs generalizing start with
    | nil => rfl
    | cons c cs ih =>
      rw [List.foldl_cons, Nat.ofDigitChars_cons, digitValue?_of_isDigit (digits c (by simp)),
        Option.getD_some]
      exact ih (fun d member => digits d (by simp [member])) _
  exact fold 0

end RowQuery.Text

namespace RowQuery.Number

open RowQuery.Text

theorem isDigit_of_mem_toDigits {n : Nat} {c : Char} (member : c ∈ Nat.toDigits 10 n) : c.isDigit = true :=
  Nat.isDigit_of_mem_toDigits (by decide) (by decide) member

theorem digitsValue_toDigits (n : Nat) : digitsValue (Nat.toDigits 10 n) = n := by
  rw [digitsValue_eq_ofDigitChars fun c => isDigit_of_mem_toDigits, Nat.ofDigitChars_ten_toDigits]

/-- The text of an integer: a minus if it is negative, and the digits of its magnitude. -/
theorem toList_toString (n : Int) :
    (toString n).toList = (if n < 0 then ['-'] else []) ++ Nat.toDigits 10 n.natAbs := by
  rw [Int.toString_eq_repr, Int.repr_eq_if]
  by_cases negative : n < 0
  · have magnitude : (-n).toNat = n.natAbs := by omega
    rw [if_neg (by omega), if_pos negative, magnitude, String.toList_append, Nat.toList_repr]
    rfl
  · have magnitude : n.toNat = n.natAbs := by omega
    rw [if_pos (by omega), if_neg negative, magnitude, Nat.toList_repr]
    rfl

/-- Nothing is trimmed from the text of an integer. -/
theorem trim_toString (n : Int) : trim (toString n) = toString n := by
  have solid : ∀ c ∈ (toString n).toList, isBlank c = false := by
    intro c member
    rw [toList_toString, List.mem_append] at member
    rcases member with sign | digit
    · by_cases negative : n < 0
      · rw [if_pos negative, List.mem_singleton] at sign
        subst sign
        decide
      · rw [if_neg negative] at sign
        cases sign
    · exact isBlank_of_isDigit (isDigit_of_mem_toDigits digit)
  have kept := trimChars_of_ends (fun c first => solid c (List.mem_of_mem_head? first))
    (fun c last => solid c (List.mem_of_mem_getLast? last))
  rw [trim, kept, String.ofList_toList]

/-- Digits have no sign in front of them. -/
theorem takeSign_toDigits (n : Nat) : takeSign (Nat.toDigits 10 n) = (false, Nat.toDigits 10 n) := by
  cases made : Nat.toDigits 10 n with
  | nil => rfl
  | cons c cs =>
    have digit : c.isDigit = true := isDigit_of_mem_toDigits (by rw [made]; simp)
    have plus : c ≠ '+' := by
      rintro rfl
      cases digit
    have minus : c ≠ '-' := by
      rintro rfl
      cases digit
    simp [takeSign, plus, minus]

theorem takeSign_toString (n : Int) :
    takeSign (toString n).toList = (decide (n < 0), Nat.toDigits 10 n.natAbs) := by
  rw [toList_toString]
  by_cases negative : n < 0
  · simp [negative, takeSign]
  · simp [negative, takeSign_toDigits]

/-- The text of an integer is read as this integer, unless it has too many digits. -/
theorem readInteger_toString (n : Int) :
    readInteger (toString n).toList =
      if maxDigits < (Nat.toDigits 10 n.natAbs).length then
        .error (.tooLong (Nat.toDigits 10 n.natAbs).length)
      else .ok n := by
  have digits : (Nat.toDigits 10 n.natAbs).all isDigit = true :=
    List.all_eq_true.mpr fun c member => isDigit_of_isDigit (isDigit_of_mem_toDigits member)
  have signed : withSign (decide (n < 0)) n.natAbs = n := by
    unfold withSign
    split
    · next negative =>
      have negative : n < 0 := of_decide_eq_true negative
      omega
    · next nonneg =>
      have nonneg : ¬ n < 0 := fun negative => nonneg (decide_eq_true negative)
      omega
  simp only [readInteger, takeSign_toString, List.isEmpty_eq_false_iff.mpr Nat.toDigits_ne_nil, digits,
    digitsValue_toDigits, signed, Bool.not_true, Bool.or_self, Bool.false_eq_true, if_false]

end RowQuery.Number
