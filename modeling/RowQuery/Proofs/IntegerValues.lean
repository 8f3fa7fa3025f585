import Mathlib.Data.Set.List
import RowQuery.Proofs.DecimalNumerals
import RowQuery.Proofs.IntegerNumerals

/-!
# Integers of filters

`Spells` relates a text to the integer that it is an ASCII numeral of, with signs, leading zeros and blanks around it
as one likes. Every such text is converted to this integer. The unsigned integers are the integers that are written
without a minus, and the values of a list are those of its elements, one for each placeholder.
-/

namespace RowQuery.Text

/-! ## Blanks around a text -/

variable {cs before after : List Char}

/-- What is not dropped at the start is kept. -/
theorem mem_dropWhile {p : Char → Bool} {c : Char} (kept : p c = false) (member : c ∈ cs) :
    c ∈ cs.dropWhile p := by
  rw [← List.takeWhile_append_dropWhile (p := p) (l := cs), List.mem_append] at member
  rcases member with dropped | member
  · rw [List.mem_takeWhile_imp dropped] at kept
    cases kept
  · exact member

/-- Only blanks are trimmed. -/
theorem mem_trim {s : String} {c : Char} (solid : isBlank c = false) : c ∈ (trim s).toList ↔ c ∈ s.toList := by
  rw [trim, String.toList_ofList]
  constructor
  · exact mem_of_mem_trimChars
  · intro member
    rw [trimChars, trimBy, List.mem_reverse]
    exact mem_dropWhile solid (List.mem_reverse.mpr (mem_dropWhile solid member))

/-- A text that neither starts nor ends with a blank is what is left of it between blanks. -/
theorem trimChars_padded (blank : ∀ c ∈ before ++ after, isBlank c = true)
    (first : ∀ c ∈ cs.head?, isBlank c = false) (last : ∀ c ∈ cs.getLast?, isBlank c = false) :
    trimChars (before ++ cs ++ after) = cs := by
  have start : ∀ c ∈ before, isBlank c = true := fun c member => blank c (List.mem_append_left after member)
  have stop : ∀ c ∈ after, isBlank c = true := fun c member => blank c (List.mem_append_right before member)
  cases cs with
  | nil =>
    have nothing : (before ++ [] ++ after).dropWhile isBlank = [] := by
      rw [List.dropWhile_eq_nil_iff, List.append_nil]
      exact blank
    rw [trimChars, trimBy, nothing]
    rfl
  | cons c rest =>
    have kept : (before ++ (c :: rest) ++ after).dropWhile isBlank = (c :: rest) ++ after := by
      rw [List.append_assoc, List.dropWhile_append_of_pos start]
      simp [first c rfl]
    have dropped : ((c :: rest) ++ after).rdropWhile isBlank = (c :: rest).rdropWhile isBlank := by
      rw [List.rdropWhile, List.rdropWhile, List.reverse_append,
        List.dropWhile_append_of_pos fun d member => stop d (List.mem_reverse.mp member)]
    rw [trimChars_eq, kept, dropped, List.rdropWhile_eq_self_iff]
    intro nonempty
    simp [last _ (List.getLast?_eq_some_getLast nonempty)]

end RowQuery.Text

namespace RowQuery.Number

open RowQuery.Text

/-! ## Numerals -/

/-- The text `cs` is an optional sign and `digits`, of which there are some and not too many. -/
structure Integral (cs : List Char) (negative : Bool) (digits : List Char) : Prop where
  sign : Signed cs negative digits
  some : digits ≠ []
  all : ∀ c ∈ digits, isDigit c = true
  short : digits.length ≤ maxDigits

variable {cs digits : List Char} {negative : Bool}

theorem Integral.takeSign_eq (integral : Integral cs negative digits) : takeSign cs = (negative, digits) :=
  integral.sign.takeSign_digits integral.all integral.some

/-- The reader accepts numerals and nothing else. -/
theorem readInteger_eq_ok {n : Int} :
    readInteger cs = .ok n ↔
      ∃ negative digits, Integral cs negative digits ∧ n = withSign negative (digitsValue digits) := by
  constructor
  · intro read
    simp only [readInteger] at read
    split at read
    · cases read
    · next form =>
      split at read
      · cases read
      · next short =>
        cases read
        simp only [Bool.or_eq_true, List.isEmpty_iff, Bool.not_eq_true', not_or, Bool.not_eq_false,
          List.all_eq_true] at form
        exact ⟨_, _, ⟨takeSign_spec cs, form.1, form.2, Nat.not_lt.mp short⟩, rfl⟩
  · rintro ⟨negative, digits, integral, rfl⟩
    have digit : digits.all isDigit = true := List.all_eq_true.mpr integral.all
    have short : ¬ maxDigits < digits.length := Nat.not_lt.mpr integral.short
    simp [readInteger, integral.takeSign_eq, integral.some, digit, short]

/-- A numeral has a minus in it exactly if this is its sign. -/
theorem Integral.minus_mem_iff (integral : Integral cs negative digits) : '-' ∈ cs ↔ negative = true := by
  have noMinus : '-' ∉ digits := by
    intro member
    have digit := integral.all '-' member
    revert digit
    decide
  obtain ⟨sign, -, -, -⟩ := integral
  cases sign with
  | none => simp [noMinus]
  | plus => simp [noMinus]
  | minus => simp

/-- The unsigned integers are the integers without a minus. -/
theorem readUnsigned_eq_ok {n : Int} : readUnsigned cs = .ok n ↔ readInteger cs = .ok n ∧ '-' ∉ cs := by
  rw [readUnsigned]
  cases sign : (takeSign cs).1 with
  | true =>
    simp only [if_true, reduceCtorEq, false_iff, not_and, not_not]
    intro read
    obtain ⟨negative, digits, integral, -⟩ := readInteger_eq_ok.mp read
    rw [integral.takeSign_eq] at sign
    exact integral.minus_mem_iff.mpr sign
  | false =>
    simp only [Bool.false_eq_true, if_false, iff_self_and]
    intro read minus
    obtain ⟨negative, digits, integral, -⟩ := readInteger_eq_ok.mp read
    rw [integral.takeSign_eq] at sign
    rw [integral.minus_mem_iff.mp minus] at sign
    cases sign

/-- An integer without a minus is a natural number. -/
theorem exists_nat_of_readInteger {n : Int} (read : readInteger cs = .ok n) (noMinus : '-' ∉ cs) :
    ∃ m : Nat, n = m := by
  obtain ⟨negative, digits, integral, rfl⟩ := readInteger_eq_ok.mp read
  cases negative with
  | false => exact ⟨_, rfl⟩
  | true => exact absurd (integral.minus_mem_iff.mpr rfl) noMinus

/-- The text `s` is a decimal numeral of `n` in ASCII, of at most 4300 digits: blanks, an optional sign and the digits
    of the magnitude, with any number of zeros before them. -/
inductive Spells (s : String) (n : Int) : Prop where
  | mk {before numeral digits after : List Char} {negative : Bool} (text : s.toList = before ++ numeral ++ after)
      (blank : ∀ c ∈ before ++ after, isBlank c = true) (sign : Signed numeral negative digits)
      (some : digits ≠ []) (ascii : ∀ c ∈ digits, c.isDigit = true) (short : digits.length ≤ 4300)
      (magnitude : n.natAbs = Nat.ofDigitChars 10 digits 0) (signum : if negative then n ≤ 0 else 0 ≤ n) : Spells s n

/-- Neither a sign nor a digit is blank. -/
theorem Signed.solid (sign : Signed cs negative digits) (ascii : ∀ c ∈ digits, c.isDigit = true) :
    ∀ c ∈ cs, isBlank c = false := by
  intro c member
  rcases sign.characters member with rfl | rfl | digit
  · decide
  · decide
  · exact isBlank_of_isDigit (ascii c digit)

theorem readInteger_of_spells {s : String} {n : Int} (spells : Spells s n) :
    readInteger (trim s).toList = .ok n := by
  cases spells with
  | @mk before numeral digits after negative text blank sign some ascii short magnitude signum =>
    have solid := sign.solid ascii
    have trimmed : trimChars s.toList = numeral := by
      rw [text]
      exact trimChars_padded blank (fun c first => solid c (List.mem_of_mem_head? first))
        (fun c last => solid c (List.mem_of_mem_getLast? last))
    have value : n = withSign negative (digitsValue digits) := by
      rw [digitsValue_eq_ofDigitChars ascii, ← magnitude, withSign]
      cases negative with
      | true =>
        have nonpos : n ≤ 0 := signum
        rw [if_pos rfl]
        omega
      | false =>
        have nonneg : 0 ≤ n := signum
        rw [if_neg Bool.false_ne_true]
        omega
    rw [trim, String.toList_ofList, trimmed, readInteger_eq_ok]
    exact ⟨negative, digits, ⟨sign, some, fun c member => isDigit_of_isDigit (ascii c member), short⟩, value⟩

end RowQuery.Number

namespace RowQuery

open RowQuery.Number RowQuery.Text RowQuery.Sql

/-! ## Values -/

section Values

variable {filter raw : String} {v : Value}

/-- A text that is read as an integer is converted to it, and no other is. -/
theorem ofInteger_eq_ok {fault : ConversionFault} {outcome : Except IntegerFault Int}
    {wrap : ConversionFault → Error} :
    ((Value.ofInteger fault outcome).map Value.int).mapError wrap = .ok v ↔ ∃ n, outcome = .ok n ∧ v = .int n := by
  cases outcome with
  | error e => simp [Value.ofInteger, Except.mapError, Except.map]
  | ok n => simp [Value.ofInteger, Except.mapError, Except.map, eq_comm]

theorem convert_int_eq_ok :
    convert (some .int) filter raw = .ok v ↔ ∃ n, Number.readInteger (trim raw).toList = .ok n ∧ v = .int n := by
  simp only [convert, Value.ofText, reduceCtorEq, if_false, Value.read, ofInteger_eq_ok]

theorem convert_uint_eq_ok :
    convert (some .uint) filter raw = .ok v ↔ convert (some .int) filter raw = .ok v ∧ '-' ∉ raw.toList := by
  have solid : isBlank '-' = false := by decide
  rw [convert_int_eq_ok, ← mem_trim solid]
  simp only [convert, Value.ofText, reduceCtorEq, if_false, Value.read, ofInteger_eq_ok, readUnsigned_eq_ok]
  constructor
  · rintro ⟨n, ⟨read, noMinus⟩, rfl⟩
    exact ⟨⟨n, read, rfl⟩, noMinus⟩
  · rintro ⟨⟨n, read, rfl⟩, noMinus⟩
    exact ⟨n, ⟨read, noMinus⟩, rfl⟩

theorem exists_nat_of_convert_uint (ok : convert (some .uint) filter raw = .ok v) : ∃ n : Nat, v = .int n := by
  obtain ⟨ok, noMinus⟩ := convert_uint_eq_ok.mp ok
  obtain ⟨n, read, rfl⟩ := convert_int_eq_ok.mp ok
  have solid : isBlank '-' = false := by decide
  obtain ⟨m, rfl⟩ := exists_nat_of_readInteger read (mt (mem_trim solid).mp noMinus)
  exact ⟨m, rfl⟩

/-- The values of the two kinds of integers are integers. -/
theorem exists_int_of_convert {kind : ColumnKind} (integer : kind = .int ∨ kind = .uint)
    (ok : convert (some kind) filter raw = .ok v) : ∃ n, v = .int n := by
  rcases integer with rfl | rfl
  · obtain ⟨n, -, rfl⟩ := convert_int_eq_ok.mp ok
    exact ⟨n, rfl⟩
  · obtain ⟨n, rfl⟩ := exists_nat_of_convert_uint ok
    exact ⟨n, rfl⟩

end Values

/-! ## Lists -/

theorem Operation.ne_of_isList {op : Operation} (list : op.isList = true) : op ≠ .equal ∧ op ≠ .notEqual := by
  constructor
  · rintro rfl
    cases list
  · rintro rfl
    cases list

/-- An operation that takes a list tests for membership in it. -/
theorem Operation.test_of_isList {op : Operation} {value : String} {read : String → Except Error Value}
    (list : op.isList = true) : op.test value read = ((op.elements value).mapM read).map .oneOf := by
  obtain ⟨equal, notEqual⟩ := Operation.ne_of_isList list
  simp [Operation.test, equal, notEqual, list]

section Lists

variable {flt : Filter} {sep : Char} {kind : ColumnKind} {values : List Value}

/-- A filter with a list binds the values of the elements, in their order. -/
theorem Filter.bind_eq_ok_of_separator (separator : flt.operation.separator? = some sep) :
    flt.bind (some kind) = .ok values ↔
      List.Forall₂ (fun raw v => convert (some kind) flt.name (String.ofList raw) = .ok v)
        (flt.value.toList.splitOn sep) values := by
  have list : flt.operation.isList = true := by rw [Operation.isList, separator, Option.isSome_some]
  rw [Filter.bind, Filter.test, Operation.test_of_isList list, Operation.elements_of_separator separator]
  simp only [map_eq_ok, mapM_eq_ok, List.forall₂_map_left_iff]
  constructor
  · rintro ⟨_, ⟨vs, read, rfl⟩, rfl⟩
    exact read
  · intro read
    exact ⟨_, ⟨values, read, rfl⟩, rfl⟩

/-- Values of texts that are integers are a list of integers. -/
theorem exists_ints_of_forall₂ (integer : kind = .int ∨ kind = .uint) {filter : String} {raws : List (List Char)}
    (read : List.Forall₂ (fun raw v => convert (some kind) filter (String.ofList raw) = .ok v) raws values) :
    ∃ ns : List Int, values = ns.map .int ∧
      List.Forall₂ (fun raw n => convert (some kind) filter (String.ofList raw) = .ok (.int n)) raws ns := by
  have integers : values ∈ Set.range (List.map Value.int) := by
    rw [Set.range_list_map]
    intro v member
    obtain ⟨raw, -, ok⟩ := exists_left_of_forall₂ read member
    obtain ⟨n, rfl⟩ := exists_int_of_convert integer ok
    exact ⟨n, rfl⟩
  obtain ⟨ns, rfl⟩ := integers
  rw [List.forall₂_map_right_iff] at read
  exact ⟨ns, rfl, read⟩

/-- Placeholders with commas between them. -/
theorem print_placeholders (values : List Value) :
    Token.print ((values.map fun _ => Token.placeholder).intersperse (.symbol ",")) =
      ",".intercalate (List.replicate values.length "?") := by
  induction values with
  | nil => rfl
  | cons v vs ih =>
    cases vs with
    | nil => rfl
    | cons w ws =>
      simp only [List.map_cons, List.intersperse_cons_cons, List.length_cons, List.replicate_succ, Token.print,
        String.join_cons, String.intercalate_cons_cons] at ih ⊢
      rw [ih, String.append_assoc]
      rfl

theorem print_oneOf (lhs : String) (values : List Value) :
    Token.print (.word lhs :: (Test.oneOf values).tokens) =
      lhs ++ " IN (" ++ ",".intercalate (List.replicate values.length "?") ++ ")" := by
  rw [← print_placeholders, Test.tokens, Token.bracketed]
  generalize (values.map fun _ => Token.placeholder).intersperse (.symbol ",") = list
  apply String.toList_inj.mp
  simp [Token.print, String.join_cons, String.join_append, Token.text]

/-- The condition of a list has one placeholder for each element. -/
theorem conditionText_of_separator (lhs : String) {op : Operation} (separator : op.separator? = some sep)
    (value : String) :
    conditionText lhs op (.text value) =
      .ok (lhs ++ " IN (" ++ ",".intercalate (List.replicate (value.toList.splitOn sep).length "?") ++ ")") := by
  have list : op.isList = true := by rw [Operation.isList, separator, Option.isSome_some]
  obtain ⟨equal, notEqual⟩ := Operation.ne_of_isList list
  have read : (op.elements value).mapM (fun raw => (.ok (.str raw) : Except Error Value)) =
      .ok ((op.elements value).map .str) :=
    mapM_eq_ok.mpr (List.forall₂_map_right_iff.mpr (List.forall₂_same.mpr fun _ _ => rfl))
  have count : ((op.elements value).map Value.str).length = (value.toList.splitOn sep).length := by
    rw [List.length_map, Operation.elements_of_separator separator, List.length_map]
  rw [← count, ← print_oneOf]
  simp [conditionText, equal, notEqual, list, Detail.textWith, Operation.test_of_isList list, read, bind, Except.bind,
    pure, Except.pure, Except.map]

end Lists

/-- Every numeral of an integer is converted to this integer. A text is an unsigned integer if and only if it is an
    integer and has no minus in it; the value is the same, and is not negative. A filter with a list of either kind of
    integers binds values if and only if every element between separators has one. It binds the values of the elements
    in their order, one for each placeholder of its condition. -/
theorem convert_integers (filter : String) :
    (∀ s n, Spells s n → convert (some .int) filter s = .ok (.int n)) ∧
    (∀ s v, convert (some .uint) filter s = .ok v ↔
      convert (some .int) filter s = .ok v ∧ '-' ∉ s.toList) ∧
    (∀ s v, convert (some .uint) filter s = .ok v → ∃ n : Nat, v = .int n) ∧
    ∀ (flt : Filter) (sep : Char) (kind : ColumnKind),
      (flt.operation = .oneOf ∧ sep = '|') ∨ (flt.operation = .oneOfAlt ∧ sep = '*') → kind = .int ∨ kind = .uint →
      ((∃ values, flt.bind (some kind) = .ok values) ↔
        ∀ raw ∈ flt.value.toList.splitOn sep, ∃ v, convert (some kind) flt.name (String.ofList raw) = .ok v) ∧
      ∀ values, flt.bind (some kind) = .ok values →
        (∃ ns : List Int, values = ns.map .int ∧
          List.Forall₂ (fun raw n => convert (some kind) flt.name (String.ofList raw) = .ok (.int n))
            (flt.value.toList.splitOn sep) ns) ∧
        ∀ lhs, conditionText lhs flt.operation (.text flt.value) =
          .ok (lhs ++ " IN (" ++ ",".intercalate (List.replicate values.length "?") ++ ")") := by
  refine ⟨?_, fun _ _ => convert_uint_eq_ok, fun _ _ => exists_nat_of_convert_uint, ?_⟩
  · intro s n spells
    exact convert_int_eq_ok.mpr ⟨n, readInteger_of_spells spells, rfl⟩
  · intro flt sep kind operation integer
    have separator : flt.operation.separator? = some sep := by
      rcases operation with ⟨operation, rfl⟩ | ⟨operation, rfl⟩ <;> rw [operation] <;> rfl
    simp only [Filter.bind_eq_ok_of_separator separator]
    refine ⟨exists_forall₂_iff, ?_⟩
    intro values read
    refine ⟨exists_ints_of_forall₂ integer read, fun lhs => ?_⟩
    rw [← read.length_eq]
    exact conditionText_of_separator lhs separator flt.value

/-- A padded numeral, and a list in which all but the first element are padded. -/
theorem convert_integers_padded :
    Spells "\t-007 " (-7) ∧ convert (some .int) "Age" "\t-007 " = .ok (.int (-7)) ∧
    ∃ values, (⟨"Age", .oneOf, "1| +2 |003"⟩ : Filter).bind (some .uint) = .ok values ∧
      (∃ ns : List Int, values = ns.map .int ∧
        List.Forall₂ (fun raw n => convert (some .uint) "Age" (String.ofList raw) = .ok (.int n))
          ("1| +2 |003".toList.splitOn '|') ns) ∧
      conditionText "n" .oneOf (.text "1| +2 |003") =
        .ok ("n" ++ " IN (" ++ ",".intercalate (List.replicate values.length "?") ++ ")") := by
  obtain ⟨numerals, -, -, lists⟩ := convert_integers "Age"
  have spells : Spells "\t-007 " (-7) := by
    have text : "\t-007 ".toList = ['\t'] ++ ['-', '0', '0', '7'] ++ [' '] := by decide
    have blank : ∀ c ∈ ['\t'] ++ [' '], isBlank c = true := List.all_eq_true.mp rfl
    have ascii : ∀ c ∈ ['0', '0', '7'], c.isDigit = true := List.all_eq_true.mp rfl
    exact .mk text blank .minus (by simp) ascii (by decide) (by decide) (by decide)
  obtain ⟨values, bound⟩ :
      ∃ values, (⟨"Age", .oneOf, "1| +2 |003"⟩ : Filter).bind (some .uint) = .ok values := ⟨_, rfl⟩
  obtain ⟨integers, condition⟩ := (lists _ '|' .uint (.inl ⟨rfl, rfl⟩) (.inr rfl)).2 values bound
  exact ⟨spells, numerals _ _ spells, values, bound, integers, condition "n"⟩

end RowQuery
