/-!
# Splitting and joining

A text is split at every occurrence of one character. The result always has a first part, so the
split is given as that part and the list of the others.
-/

namespace RowQuery.Text

/-- The part before the first `sep` and the parts after it. -/
def splitChars (sep : Char) : List Char → List Char × List (List Char)
  | [] => ([], [])
  | c :: cs =>
    let (part, parts) := splitChars sep cs
    if c = sep then ([], part :: parts) else (c :: part, parts)

/-- The parts of `s` between the occurrences of `sep`; there is always at least one. -/
def split (sep : Char) (s : String) : List String :=
  let (part, parts) := splitChars sep s.toList
  (part :: parts).map String.ofList

/-- What stands before and after the first `sep`, or `none` if there is no `sep`. -/
def cut? (sep : Char) (s : String) : Option (String × String) :=
  match s.toList.span (· != sep) with
  | (_, []) => none
  | (before, _ :: after) => some (String.ofList before, String.ofList after)

/-- What stands before and after the first occurrence of `text`; all and nothing if it does not occur. -/
def cutAt (text : List Char) : List Char → List Char × List Char
  | [] => ([], [])
  | c :: cs =>
    if text.isPrefixOf (c :: cs) then ([], (c :: cs).drop text.length)
    else
      let (before, after) := cutAt text cs
      (c :: before, after)

/-- The items of `xs` that are not in `seen` and do not repeat, in order, after those of `seen`. -/
def mergeNew {α : Type} [DecidableEq α] (seen xs : List α) : List α :=
  xs.foldl (fun acc x => if x ∈ acc then acc else acc ++ [x]) seen

/-- The non-empty texts among `parts`, with `between` between each two. -/
def joinNonEmpty (between : String) (parts : List String) : String :=
  between.intercalate (parts.filter (· != ""))

end RowQuery.Text
