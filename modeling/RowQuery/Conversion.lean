import RowQuery.Detail
import RowQuery.Kind
import RowQuery.Text.Casing
import RowQuery.Time.Epoch
import RowQuery.Time.Iso

/-!
# Values and their conversion

A value is what is bound to a placeholder. The text of a filter value is converted to the kind of
the column it is compared with.
-/

namespace RowQuery

open RowQuery.Number RowQuery.Time

/-- A bound value. -/
inductive Value where
  | str (s : String)
  | int (n : Int)
  | bool (b : Bool)
  | float (x : Binary64)
  | time (t : Moment)
  deriving DecidableEq, Repr

/-- The display of a value in the log. -/
def Value.display : Value → String
  | .str s => Text.display s
  | .int n => toString n
  | .bool b => Detail.displayBool b
  | .float x => x.display
  | .time t => t.display

/-- Why a text has no value of a kind. -/
inductive ConversionFault where
  | notAnInteger
  | notUnsigned
  | tooManyDigits (count : Nat)
  | notADecimal
  | notABoolean
  | time (fault : TimeFault)
  deriving DecidableEq, Repr

/-- The wording of a fault. -/
def ConversionFault.message : ConversionFault → String
  | .notAnInteger => "not an integer"
  | .notUnsigned => "not an unsigned integer"
  | .tooManyDigits count =>
    "Exceeds the limit (" ++ toString maxDigits ++
      " digits) for integer string conversion: value has " ++ toString count ++ " digits; use sys.set_int_max_str_digits() to increase the limit"
  | .notADecimal => "not a decimal number"
  | .notABoolean => "not a boolean"
  | .time fault => fault.message

namespace Value

/-- The outcome of reading an integer, where a malformed text has the fault `malformed`. -/
def ofInteger (malformed : ConversionFault) (outcome : Except IntegerFault Int) :
    Except ConversionFault Int :=
  outcome.mapError fun
    | .malformed => malformed
    | .tooLong count => .tooManyDigits count

/-- Whether a text has the form of an integer, however long. -/
def isIntegerForm (cs : List Char) : Bool :=
  match readInteger cs with
  | .error .malformed => false
  | _ => true

/-- A truth value: one of two words in any case, or a binary digit. -/
def readBool (s : String) : Except ConversionFault Bool :=
  let word := Text.toSmalls s
  if word == "true" || word == "1" then .ok true
  else if word == "false" || word == "0" then .ok false
  else .error .notABoolean

/-- A moment: what has the form of an integer counts milliseconds, anything else is an ISO time. -/
def readTime (cs : List Char) : Except ConversionFault Moment :=
  if isIntegerForm cs then do
    let millis ← ofInteger .notAnInteger (readInteger cs)
    (ofMillis millis).mapError .time
  else (ofIso cs).mapError .time

/-- The value of a text that has been trimmed where its kind asks for it. -/
def read (kind : ColumnKind) (s : String) : Except ConversionFault Value :=
  match kind with
  | .string | .json => .ok (.str s)
  | .int => (ofInteger .notAnInteger (readInteger s.toList)).map .int
  | .uint => (ofInteger .notUnsigned (readUnsigned s.toList)).map .int
  | .float => match Decimal.read? s.toList with
    | some d => .ok (.float d.toBinary64)
    | none => .error .notADecimal
  | .bool => (readBool s).map .bool
  | .time => (readTime s.toList).map .time

/-- The value of a text as a kind. Blanks around it count for strings only. -/
def ofText (kind : ColumnKind) (s : String) : Except ConversionFault Value :=
  read kind (if kind = .string then s else Text.trim s)

end Value

end RowQuery
