import RowQuery.Detail.Use
import RowQuery.Filter
import RowQuery.Sql.Predicate

/-!
# Conditions of filters

A filter on an expression is a test of it: a comparison with one converted value, a membership in a
list of them, or a test for null.
-/

namespace RowQuery

open RowQuery.Sql

/-- The value of a raw text for a column, which may hold something that no text converts to. The
    filter is named in errors. -/
def convert (kind : Option ColumnKind) (filter raw : String) : Except Error Value :=
  match kind with
  | none => .error (.unsupportedKind filter raw)
  | some kind => (Value.ofText kind raw).mapError (.inconvertible filter raw kind)

/-- The comparison of an operation with one value. -/
def Operation.comparison : Operation → Comparison
  | .notEqual => .notEqual
  | .less => .less
  | .lessEqual => .lessEqual
  | .greater => .greater
  | .greaterEqual => .greaterEqual
  | .like => .like
  | .equal | .oneOf | .oneOfAlt => .equal

/-- The test that an operation makes with a raw value, whose elements are converted by `read`. -/
def Operation.test (op : Operation) (value : String) (read : String → Except Error Value) :
    Except Error Test :=
  if op = .equal && isNullWord value then .ok .isNull
  else if op = .notEqual && isNullWord value then .ok .isNotNull
  else if op.isList then ((op.elements value).mapM read).map .oneOf
  else (read value).map (.compare op.comparison)

/-- The test of a filter on a column of a kind. -/
def Filter.test (f : Filter) (kind : Option ColumnKind) : Except Error Test :=
  f.operation.test f.value (convert kind f.name)

/-- The values that a filter binds on a column of a kind. -/
def Filter.bind (f : Filter) (kind : Option ColumnKind) : Except Error (List Value) :=
  (f.test kind).map Test.args

/-- The elements of a value under an operation, which has to take a list. -/
def splitValue (value : Detail) (op : Operation) : Except Error (List String) := do
  let value ← value.textWith "split"
  if op.isList then return op.elements value else throw (.notAList op)

/-- Whether a value is one of the words for a missing value; it must not have parts of its own. -/
def isNullDetail (value : Detail) : Except Error Bool :=
  match value with
  | .text s => .ok (isNullWord s)
  | .list _ | .record _ => .error (.compositeKey value)
  | _ => .ok false

/-- The condition of an operation and a raw value on an expression that is given as text. A value that
    is no text can only be compared with. -/
def conditionText (lhs : String) (op : Operation) (value : Detail) : Except Error String := do
  if op = .equal || op = .notEqual then
    let _ ← isNullDetail value
  let raw ← if op.isList then value.textWith "split" else pure value.plain
  let test ← op.test raw fun raw => .ok (.str raw)
  return Token.print (.word lhs :: test.tokens)

end RowQuery
