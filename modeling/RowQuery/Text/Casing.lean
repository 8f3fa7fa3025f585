/-!
# Letter case

Case mapping as far as it decides whether a text is one of a few ASCII words: letters beyond ASCII
are mapped where their other case is a single ASCII letter, and kept otherwise.
-/

namespace RowQuery.Text

/-- The capital form: the ASCII letters, the dotless `i` and the long `s`. -/
def capital (c : Char) : Char :=
  if c = '\u0131' then 'I' else if c = '\u017F' then 'S' else c.toUpper

/-- The small form: the ASCII letters and the Kelvin sign. -/
def small (c : Char) : Char :=
  if c = '\u212A' then 'k' else c.toLower

/-- `capital` on every character. -/
def toCapitals (s : String) : String :=
  String.ofList (s.toList.map capital)

/-- `small` on every character. -/
def toSmalls (s : String) : String :=
  String.ofList (s.toList.map small)

/-- Small forms of the ASCII letters alone. -/
def toAsciiSmalls (s : String) : String :=
  String.ofList (s.toList.map Char.toLower)

end RowQuery.Text
