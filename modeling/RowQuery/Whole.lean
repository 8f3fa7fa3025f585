import RowQuery.Number.Integer
import RowQuery.Problem
import RowQuery.Text.Split

/-!
# Whole numbers in drafts

A whole number that a caller fills in or an environment holds: an integer, another number without a
fraction, or a text. Texts are read more freely than values of filters are.
-/

namespace RowQuery

/-- What is left of a numeral when zeros in front of it are dropped, and underscores among them. The
    last zero stays if nothing but a point follows it. -/
def dropZeros (cs : List Char) : Option (List Char) :=
  match cs with
  | [] => none
  | first :: _ =>
    if first == '-' || (first.isDigit && first != '0') then some cs
    else if first != '0' then none
    else
      let zeros := cs.takeWhile fun c => c == '0' || c == '_'
      match cs.drop zeros.length with
      | [] => some zeros.getLast?.toList
      | c :: rest =>
        if c == '-' || c.isDigit then some (c :: rest)
        else if c == '.' then some (zeros.getLast?.toList ++ c :: rest)
        else none

/-- A numeral without the point and the zeros behind it, of which there has to be one. -/
def dropPlaces (cs : List Char) : List Char :=
  match cs.span (· != '.') with
  | (whole, '.' :: '0' :: places) => if places.all (· == '0') then whole else cs
  | _ => cs

/-- A numeral without the underscores between its characters; there may be none at its ends, and no
    two in a row. -/
def dropUnderscores (cs : List Char) : Option (List Char) :=
  let (part, parts) := Text.splitChars '_' cs
  if parts.isEmpty then some cs
  else if (part :: parts).any List.isEmpty then none
  else some (part :: parts).flatten

/-- An integer of a sign and digits, of which the first is zero only if it is the only one. -/
def readDigits (negative : Bool) (digits : List Char) : Except Complaint Int :=
  if digits.isEmpty || !digits.all Char.isDigit || (digits.head? == some '0' && digits.tail != []) then
    .error .notAnInteger
  else if Number.maxDigits < digits.length then .error .integerTooLong
  else .ok (Number.withSign negative (Text.digitsValue digits))

/-- A whole number in a text: blanks around it, a sign, zeros in front, single underscores between the
    digits, and zeros behind a point. Behind zeros in front a minus may stand as well, if none has
    stood before. -/
def readWhole (s : String) : Except Complaint Int :=
  let body := match Text.trimBy Number.isNumeralBlank s.toList with
    | '+' :: '-' :: _ => []
    | '+' :: cs => cs
    | cs => cs
  let (negative, body) := match body with
    | '-' :: cs => (true, cs)
    | cs => (false, cs)
  match (dropZeros body).bind fun cs => dropUnderscores (dropPlaces cs) with
  | none => .error .notAnInteger
  | some ('-' :: digits) => if negative then .error .notAnInteger else readDigits true digits
  | some digits => readDigits negative digits

/-- A value that has to be a whole number, or a text that stands for one. -/
def readInteger : Detail → Except Complaint Int
  | .int n => .ok n
  | .bool b => .ok (if b then 1 else 0)
  | .text s => readWhole s
  | .float x => match x.integerPart? with
    | none => .error .notFinite
    | some n => if x.isWhole then .ok n else .error .fractional
  | _ => .error .noInteger

end RowQuery
