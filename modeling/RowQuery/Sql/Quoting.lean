/-!
# Quoting

Names and texts are written into SQL between quotes, with the quotes inside them doubled. Here too are
the escapes that are written inside a text: those of a pattern and those of a path into JSON.
-/

namespace RowQuery.Sql

/-- Every `q` twice. -/
def double (q : Char) (cs : List Char) : List Char :=
  cs.flatMap fun c => if c = q then [q, q] else [c]

/-- A name between quotes `q`. -/
def enclose (q : Char) (name : String) : String :=
  String.ofList (q :: (double q name.toList ++ [q]))

/-- One character of a literal: backslashes and single quotes are doubled. -/
def literalChar (c : Char) : List Char :=
  if c = '\\' then ['\\', '\\'] else if c = '\'' then ['\'', '\''] else [c]

/-- A text as a literal between single quotes. -/
def quoteLiteral (value : String) : String :=
  String.ofList ('\'' :: (value.toList.flatMap literalChar ++ ['\'']))

/-- The one pass over a literal is the backslashes doubled and then the quotes. -/
theorem flatMap_literalChar (cs : List Char) : cs.flatMap literalChar = double '\'' (double '\\' cs) := by
  rw [double, double, List.flatMap_assoc]
  refine congrArg (cs.flatMap ·) (funext fun c => ?_)
  by_cases backslash : c = '\\'
  · simp [literalChar, backslash]
  · simp [literalChar, backslash]

/-- The path into a JSON object that selects the member of a language. -/
def languagePath (language : String) : String :=
  String.ofList (['$', '.', '"'] ++
    language.toList.flatMap (fun c => if c = '"' then ['\\', '"'] else [c]) ++ ['"'])

/-- How a path that follows dotted keys starts. -/
def keyPathStart : String := "$."

/-- The path into a JSON object that follows dotted keys. -/
def keyPath (keys : String) : String := keyPathStart ++ keys

/-- A pattern that only `value` matches: the wildcards and the backslash take a backslash. -/
def escapeLike (value : String) : String :=
  String.ofList (value.toList.flatMap fun c =>
    if c = '\\' || c = '%' || c = '_' then ['\\', c] else [c])

/-- A backslash in front of every `special`. -/
def escape (special : Char) (cs : List Char) : List Char :=
  cs.flatMap fun c => if c = special then ['\\', c] else [c]

/-- The one pass over a pattern is three: the backslashes come first, since the other two write some. -/
theorem escapeLike_eq_escape (value : String) :
    escapeLike value = String.ofList (escape '_' (escape '%' (escape '\\' value.toList))) := by
  simp only [escapeLike, escape, List.flatMap_assoc]
  refine congrArg (fun each => String.ofList (value.toList.flatMap each)) (funext fun c => ?_)
  by_cases backslash : c = '\\'
  · simp [backslash]
  · by_cases percent : c = '%'
    · simp [percent]
    · simp [backslash, percent]

end RowQuery.Sql
