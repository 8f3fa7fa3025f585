import RowQuery.Text.Split

/-!
# Dotted paths

A path names a field, or leads to one through relations or into a structured column. It has at least
one segment.
-/

namespace RowQuery

/-- A path: its first segment and the others. -/
structure Path where
  head : String
  rest : List String
  deriving DecidableEq, Repr

namespace Path

/-- The path that a dotted text spells. -/
def ofText (s : String) : Path :=
  let (part, parts) := Text.splitChars '.' s.toList
  ⟨String.ofList part, parts.map String.ofList⟩

/-- All segments. -/
def segments (p : Path) : List String := p.head :: p.rest

/-- Segments joined by dots. -/
def dotted (segments : List String) : String := ".".intercalate segments

end Path

end RowQuery
