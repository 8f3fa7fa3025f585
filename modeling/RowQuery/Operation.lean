import RowQuery.Text.Split

/-!
# Operations

The comparisons of the filter language: their names, the tokens they are written with, their SQL
operators, and the separators of those that take a list.
-/

namespace RowQuery

/-- How a filter compares. -/
inductive Operation where
  | equal
  | notEqual
  | less
  | lessEqual
  | greater
  | greaterEqual
  | like
  | oneOf
  | oneOfAlt
  deriving DecidableEq, Repr

namespace Operation

/-- All operations, in the order in which they are listed to a caller. -/
def all : List Operation :=
  [.equal, .notEqual, .less, .lessEqual, .greater, .greaterEqual, .like, .oneOf, .oneOfAlt]

/-- The name of an operation. -/
def name : Operation → String
  | .equal => "EQ"
  | .notEqual => "NEQ"
  | .less => "LT"
  | .lessEqual => "LTE"
  | .greater => "GT"
  | .greaterEqual => "GTE"
  | .like => "LK"
  | .oneOf => "IN"
  | .oneOfAlt => "IN_ALT"

/-- The operation with a given name. -/
def ofName? (s : String) : Option Operation := all.find? (·.name == s)

/-- The token of an operation in a filter. -/
def token : Operation → List Char
  | .equal => ['=']
  | .notEqual => ['!', '=']
  | .less => ['<']
  | .lessEqual => ['<', '=']
  | .greater => ['>']
  | .greaterEqual => ['>', '=']
  | .like => ['~', '=']
  | .oneOf => ['|', '=']
  | .oneOfAlt => ['*', '=']

/-- The operation with a given token. -/
def ofToken? (cs : List Char) : Option Operation := all.find? (·.token == cs)

/-- The characters that tokens are made of. -/
def isTokenChar (c : Char) : Bool :=
  c == '=' || c == '!' || c == '<' || c == '>' || c == '~' || c == '|' || c == '*'

/-- The character between the elements of a value, for the operations that take a list. -/
def separator? : Operation → Option Char
  | .oneOf => some '|'
  | .oneOfAlt => some '*'
  | _ => none

/-- Whether an operation takes a list. -/
def isList (op : Operation) : Bool := op.separator?.isSome

/-- The raw elements of a value: the parts of a list, or the value itself. -/
def elements (op : Operation) (value : String) : List String :=
  match op.separator? with
  | some sep => Text.split sep value
  | none => [value]

end Operation

/-- The three words that stand for a missing value. -/
def isNullWord (value : String) : Bool :=
  value == "NULL" || value == "null" || value == "nil"

/-- Which way a sort goes. -/
inductive Direction where
  | ascending
  | descending
  deriving DecidableEq, Repr

namespace Direction

/-- The SQL word. -/
def name : Direction → String
  | .ascending => "ASC"
  | .descending => "DESC"

/-- The word in the text of a sort. -/
def word : Direction → String
  | .ascending => "asc"
  | .descending => "desc"

/-- The direction with a given SQL word. -/
def ofName? (s : String) : Option Direction :=
  [ascending, descending].find? (·.name == s)

end Direction

end RowQuery
