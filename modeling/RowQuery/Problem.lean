import RowQuery.Detail
import RowQuery.Text.Casing

/-!
# Problems of a draft

A record that a caller fills in is checked field by field; each field that is wrong gives one
problem.
-/

namespace RowQuery

/-- What is wrong with a field. -/
inductive Complaint where
  | required
  | tooShort
  | notAPath (text : String)
  | notOneOf (choices : List String)
  | notAString
  | notAnInteger
  /-- The numeral of an integer has more digits than are read. -/
  | integerTooLong
  /-- A number is not whole. -/
  | fractional
  | notFinite
  /-- A value of another class stands where an integer should. -/
  | noInteger
  /-- A text or a number does not stand for a truth value. -/
  | notABoolean
  /-- A value of another class stands where a truth value should. -/
  | noTruthValue
  deriving DecidableEq, Repr

/-- Choices in quotes, with `or` before the last. -/
def listChoices (choices : List String) : String :=
  let quoted := choices.map fun s => "'" ++ s ++ "'"
  match quoted.reverse with
  | [] => ""
  | [only] => only
  | last :: others => ", ".intercalate others.reverse ++ " or " ++ last

/-- The wording of a complaint. -/
def Complaint.message : Complaint → String
  | .required => "Field required"
  | .tooShort => "String should have at least 1 character"
  | .notAPath text => "Value error, invalid filter path: " ++ Text.display text
  | .notOneOf choices => "Input should be " ++ listChoices choices
  | .notAString => "Input should be a valid string"
  | .notAnInteger => "Input should be a valid integer, unable to parse string as an integer"
  | .integerTooLong => "Unable to parse input string as an integer, exceeded maximum size"
  | .fractional => "Input should be a valid integer, got a number with a fractional part"
  | .notFinite => "Input should be a finite number"
  | .noInteger => "Input should be a valid integer"
  | .notABoolean => "Input should be a valid boolean, unable to interpret input"
  | .noTruthValue => "Input should be a valid boolean"

/-- A field and what is wrong with it. -/
structure Problem where
  field : String
  complaint : Complaint
  deriving DecidableEq, Repr

/-- The wording of a problem. -/
def Problem.message (p : Problem) : String := p.field ++ ": " ++ p.complaint.message

/-- The outcome of a check: the value, or what is wrong. -/
abbrev Checked (α : Type) := Except (List Problem) α

namespace Checked

/-- Checks one field. -/
def field {α : Type} (name : String) (outcome : Except Complaint α) : Checked α :=
  outcome.mapError fun complaint => [⟨name, complaint⟩]

/-- Both values, or the problems of both. -/
def both {α β : Type} (a : Checked α) (b : Checked β) : Checked (α × β) :=
  match a, b with
  | .ok x, .ok y => .ok (x, y)
  | .ok _, .error ps => .error ps
  | .error ps, .ok _ => .error ps
  | .error ps, .error qs => .error (ps ++ qs)

end Checked

/-- A value that has to be given. -/
def given {α : Type} : Option α → Except Complaint α
  | some a => .ok a
  | none => .error .required

/-- A value that has to be a text. -/
def readText : Detail → Except Complaint String
  | .text s => .ok s
  | _ => .error .notAString

/-- A text that may be missing or null. -/
def readOptionalText : Option Detail → Except Complaint (Option String)
  | none | some .null => .ok none
  | some d => (readText d).map some

/-- A value that has to be one of several texts. -/
def chosen {α : Type} (choices : List String) (parse : String → Option α) (d : Detail) :
    Except Complaint α :=
  match d with
  | .text s => match parse s with
    | some a => .ok a
    | none => .error (.notOneOf choices)
  | _ => .error (.notOneOf choices)

/-- A truth value in a text: one of the usual words in any case, or a binary digit. -/
def readFlag (s : String) : Except Complaint Bool :=
  let word := Text.toAsciiSmalls s
  if word ∈ ["1", "t", "true", "y", "yes", "on"] then .ok true
  else if word ∈ ["0", "f", "false", "n", "no", "off"] then .ok false
  else .error .notABoolean

/-- The truth value that a whole number stands for. -/
def binaryFlag (n : Int) : Except Complaint Bool :=
  if n = 0 then .ok false else if n = 1 then .ok true else .error .notABoolean

/-- A value that has to be a truth value, or a text or a number that stands for one. -/
def readBoolean : Detail → Except Complaint Bool
  | .bool b => .ok b
  | .text s => readFlag s
  | .int n => binaryFlag n
  | .float x => match x.integerPart? with
    | some n => if x.isWhole then binaryFlag n else .error .noTruthValue
    | none => .error .noTruthValue
  | _ => .error .noTruthValue

end RowQuery
