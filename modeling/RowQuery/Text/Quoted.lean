import RowQuery.Text.Printable

/-!
# Quoted display

How a text is shown inside a message: between quotes, with everything escaped that could not be
told apart otherwise.
-/

namespace RowQuery.Text

/-- The single quote, unless the text has one and no double quote. -/
def displayQuote (s : String) : Char :=
  if s.toList.contains '\'' && !s.toList.contains '"' then '"' else '\''

/-- `n` in small hexadecimal digits, padded with zeros to `width`. -/
def hexPadded (width n : Nat) : List Char :=
  let digits := Nat.toDigits 16 n
  List.replicate (width - digits.length) '0' ++ digits

/-- One character inside a display that is enclosed in `quote`: the backslash, the quote and the
    usual controls take a backslash, other hidden characters their code point in the shortest of
    three widths. -/
def displayChar (quote c : Char) : List Char :=
  if c = '\\' then ['\\', '\\']
  else if c = quote then ['\\', c]
  else if c = '\n' then ['\\', 'n']
  else if c = '\r' then ['\\', 'r']
  else if c = '\t' then ['\\', 't']
  else if isPrintable c then [c]
  else if c.toNat < 0x100 then ['\\', 'x'] ++ hexPadded 2 c.toNat
  else if c.toNat < 0x10000 then ['\\', 'u'] ++ hexPadded 4 c.toNat
  else ['\\', 'U'] ++ hexPadded 8 c.toNat

/-- The quoted display of a text. -/
def display (s : String) : String :=
  let quote := displayQuote s
  String.ofList (quote :: (s.toList.flatMap (displayChar quote) ++ [quote]))

/-- The display of a list of items that are displayed already. -/
def displayList (items : List String) : String :=
  "[" ++ ", ".intercalate items ++ "]"

end RowQuery.Text
