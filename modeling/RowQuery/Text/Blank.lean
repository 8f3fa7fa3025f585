/-!
# Blank characters

Which characters are trimmed from the ends of a text, and the trimming itself. Texts are trimmed as
lists of characters; `trim` is the form on strings.
-/

namespace RowQuery.Text

/-- The blank characters: the ASCII controls from tab to carriage return, the four information
    separators, the space, and the space and line separators beyond ASCII. A zero-width space is
    not blank. -/
def isBlank (c : Char) : Bool :=
  let n := c.toNat
  (0x09 ≤ n && n ≤ 0x0D) || (0x1C ≤ n && n ≤ 0x20) || n == 0x85 || n == 0xA0 || n == 0x1680 ||
    (0x2000 ≤ n && n ≤ 0x200A) || n == 0x2028 || n == 0x2029 || n == 0x202F || n == 0x205F ||
    n == 0x3000

/-- Drops the leading characters that satisfy `p`, then the trailing ones. -/
def trimBy (p : Char → Bool) (cs : List Char) : List Char :=
  ((cs.dropWhile p).reverse.dropWhile p).reverse

/-- Drops trailing blanks. -/
def trimEndChars (cs : List Char) : List Char :=
  (cs.reverse.dropWhile isBlank).reverse

/-- Drops the blanks at both ends. -/
def trimChars (cs : List Char) : List Char :=
  trimBy isBlank cs

/-- `trimChars` on strings. -/
def trim (s : String) : String :=
  String.ofList (trimChars s.toList)

/-- `trimEndChars` on strings. -/
def trimEnd (s : String) : String :=
  String.ofList (trimEndChars s.toList)

/-- Whether a text has nothing but blanks. -/
def allBlank (s : String) : Bool :=
  s.toList.all isBlank

end RowQuery.Text
