import RowQuery.Sql.Expr

/-!
# Predicates

Conditions on rows. A predicate carries the values that are bound to its placeholders, so its text
and its values come from one tree: `Predicate.tokens` has a placeholder exactly where
`Predicate.args` has a value.
-/

namespace RowQuery.Sql

/-- The comparisons with one value. -/
inductive Comparison where
  | equal
  | notEqual
  | less
  | lessEqual
  | greater
  | greaterEqual
  | like
  deriving DecidableEq, Repr

/-- The SQL operator of a comparison. -/
def Comparison.token : Comparison → Token
  | .equal => .symbol "="
  | .notEqual => .symbol "<>"
  | .less => .symbol "<"
  | .lessEqual => .symbol "<="
  | .greater => .symbol ">"
  | .greaterEqual => .symbol ">="
  | .like => .word "LIKE"

/-- What is asked of an expression. -/
inductive Test where
  | compare (op : Comparison) (value : Value)
  | isNull
  | isNotNull
  | oneOf (values : List Value)
  deriving DecidableEq, Repr

namespace Test

/-- The bound values. -/
def args : Test → List Value
  | .compare _ value => [value]
  | .isNull | .isNotNull => []
  | .oneOf values => values

/-- The tokens behind the expression. -/
def tokens : Test → List Token
  | .compare op _ => [.space, op.token, .space, .placeholder]
  | .isNull => .space :: Token.words ["IS", "NULL"]
  | .isNotNull => .space :: Token.words ["IS", "NOT", "NULL"]
  | .oneOf values =>
    [.space, .word "IN", .space] ++
      Token.bracketed ((values.map fun _ => Token.placeholder).intersperse (.symbol ","))

end Test

/-- A condition on a row. -/
inductive Predicate where
  | test (lhs : Expr) (t : Test)
  /-- Some text of a translated column matches a pattern, or none does. -/
  | anyLanguage (c : Column) (found : Bool) (pattern : String)
  | sameColumn (a b : Column)
  | hasText (c : Column) (value : String)
  | and (p q : Predicate)
  | or (p q : Predicate)
  | group (p : Predicate)
  /-- A column has a value that `selected` has in a row of `source` on which `condition` holds. -/
  | inSelect (lhs selected : Column) (source : String) (condition : Predicate)
  deriving DecidableEq, Repr

/-- Tokens on both sides of a connective. -/
def connectTokens (w : String) (p q : List Token) : List Token := p ++ Token.spaced w ++ q

/-- The tokens of a membership in a subselect. -/
def inSelectTokens (d : Dialect) (lhs selected : Column) (source : String) (condition : List Token) :
    List Token :=
  lhs.tokens d ++ Token.spaced "IN" ++ Token.bracketedSpaced
    ([.word "SELECT", .space] ++ selected.tokens d ++ Token.spaced "FROM" ++ [.name d source] ++
      Token.spaced "WHERE" ++ Token.bracketedSpaced condition)

namespace Predicate

/-- The bound values, in the order of their placeholders. -/
def args : Predicate → List Value
  | .test _ t => t.args
  | .anyLanguage _ _ pattern => [.str pattern]
  | .sameColumn _ _ => []
  | .hasText _ _ => []
  | .and p q => p.args ++ q.args
  | .or p q => p.args ++ q.args
  | .group p => p.args
  | .inSelect _ _ _ p => p.args

/-- The tokens of a predicate. -/
def tokens (d : Dialect) : Predicate → List Token
  | .test lhs t => lhs.tokens d ++ t.tokens
  | .anyLanguage c found _ =>
    [.word "JSON_SEARCH", .symbol "("] ++ c.tokens d ++ Token.comma ++ [.literal "one"] ++
      Token.comma ++ [.placeholder, .symbol ")", .space] ++
      Token.words (if found then ["IS", "NOT", "NULL"] else ["IS", "NULL"])
  | .sameColumn a b => a.tokens d ++ Token.spacedSymbol "=" ++ b.tokens d
  | .hasText c value => c.tokens d ++ Token.spacedSymbol "=" ++ [.literal value]
  | .and p q => connectTokens "AND" (p.tokens d) (q.tokens d)
  | .or p q => connectTokens "OR" (p.tokens d) (q.tokens d)
  | .group p => Token.bracketedSpaced (p.tokens d)
  | .inSelect lhs selected source p => inSelectTokens d lhs selected source (p.tokens d)

/-- The text of a predicate. -/
def text (d : Dialect) (p : Predicate) : String := Token.print (p.tokens d)

/-- The disjunction of some predicates, of which there is at least one. -/
def anyOf : Predicate → List Predicate → Predicate
  | p, [] => p
  | p, q :: qs => .or p (anyOf q qs)

end Predicate

/-- Conditions with a connective between each two. -/
def connectedTokens (d : Dialect) (w : String) (ps : List Predicate) : List Token :=
  Token.joined (Token.spaced w) (ps.map (·.tokens d))

/-- The bound values of several conditions. -/
def argsOf (ps : List Predicate) : List Value := ps.flatMap Predicate.args

/-- A condition with a hole in it. -/
inductive Frame where
  /-- The hole is the condition of a subselect. -/
  | select (lhs selected : Column) (source : String)
  /-- The hole and another condition hold. -/
  | also (q : Predicate)
  deriving DecidableEq, Repr

namespace Frame

/-- Puts a condition into the hole. -/
def fill (p : Predicate) : Frame → Predicate
  | .select lhs selected source => .inSelect lhs selected source p
  | .also q => .and p q

/-- Puts tokens into the hole. -/
def fillTokens (d : Dialect) (ts : List Token) : Frame → List Token
  | .select lhs selected source => inSelectTokens d lhs selected source ts
  | .also q => connectTokens "AND" ts (q.tokens d)

/-- Puts a condition into nested frames, the outermost of which comes first. -/
def nest (frames : List Frame) (p : Predicate) : Predicate :=
  frames.foldr (fun frame inner => frame.fill inner) p

/-- Puts tokens into nested frames, the outermost of which comes first. -/
def nestTokens (d : Dialect) (frames : List Frame) (ts : List Token) : List Token :=
  frames.foldr (fun frame inner => frame.fillTokens d inner) ts

/-- Filling a frame and writing it is the same as writing it around what is written. -/
theorem tokens_fill (d : Dialect) (p : Predicate) (frame : Frame) :
    (frame.fill p).tokens d = frame.fillTokens d (p.tokens d) := by
  cases frame <;> rfl

/-- Nesting commutes with writing. -/
theorem tokens_nest (d : Dialect) (frames : List Frame) (p : Predicate) :
    (nest frames p).tokens d = nestTokens d frames (p.tokens d) := by
  induction frames with
  | nil => rfl
  | cons frame frames ih =>
    show (frame.fill (nest frames p)).tokens d = frame.fillTokens d (nestTokens d frames (p.tokens d))
    rw [tokens_fill, ih]

end Frame

end RowQuery.Sql
