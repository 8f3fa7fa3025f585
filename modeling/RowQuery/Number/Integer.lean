import RowQuery.Text.Blank
import RowQuery.Text.Digit

/-!
# Integers as text

A strict reader for values (an optional sign and digits, nothing else) and a lenient one for
paging parameters (blanks around, single underscores between digits). Both refuse numerals of more
than `maxDigits` digits.
-/

namespace RowQuery.Number

open RowQuery.Text

/-- The longest numeral that is read, counted in digits; leading zeros count. -/
def maxDigits : Nat := 4300

/-- Whether a numeral starts with a minus, and what follows its sign, if it has one. -/
def takeSign : List Char → Bool × List Char
  | '+' :: cs => (false, cs)
  | '-' :: cs => (true, cs)
  | cs => (false, cs)

/-- The integer with a given sign and magnitude. -/
def withSign (negative : Bool) (n : Nat) : Int :=
  if negative then -(n : Int) else n

/-- Why a text is no integer. -/
inductive IntegerFault where
  | malformed
  | tooLong (digits : Nat)
  deriving DecidableEq, Repr

/-- Reads an optional sign and at least one digit. -/
def readInteger (cs : List Char) : Except IntegerFault Int :=
  let (negative, digits) := takeSign cs
  if digits.isEmpty || !digits.all isDigit then .error .malformed
  else if maxDigits < digits.length then .error (.tooLong digits.length)
  else .ok (withSign negative (digitsValue digits))

/-- Reads an integer without a minus. -/
def readUnsigned (cs : List Char) : Except IntegerFault Int :=
  if (takeSign cs).1 then .error .malformed else readInteger cs

/-- The digits of a numeral whose digits may be set apart by single underscores, or `none` if an
    underscore does not stand between two digits or another character occurs. -/
def groupedDigits : List Char → Option (List Char)
  | [] => none
  | [c] => if isDigit c then some [c] else none
  | c :: '_' :: cs => if isDigit c then (groupedDigits cs).map (c :: ·) else none
  | c :: cs => if isDigit c then (groupedDigits cs).map (c :: ·) else none

/-- The blanks that a lenient numeral may have around it: all but the information separators. -/
def isNumeralBlank (c : Char) : Bool :=
  isBlank c && !(0x1C ≤ c.toNat && c.toNat ≤ 0x1F)

/-- Reads an integer with blanks around it and underscores between its digits. -/
def readLenient? (s : String) : Option Int :=
  let (negative, body) := takeSign (trimBy isNumeralBlank s.toList)
  match groupedDigits body with
  | none => none
  | some digits =>
    if maxDigits < digits.length then none else some (withSign negative (digitsValue digits))

end RowQuery.Number
