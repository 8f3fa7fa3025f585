import RowQuery.Template.Fault
import RowQuery.Text.Digit

/-!
# Templates

A template is a text with directives in it. A directive starts with a percent sign and may have the
name of an argument in brackets, flags, a width and a precision; it ends with the letter of its
conversion. Two percent signs are one that is meant as it is.
-/

namespace RowQuery.Template

/-- The name of the argument that a directive takes. -/
inductive Key where
  | absent
  | named (name : String)
  /-- The closing bracket is missing. -/
  | unclosed
  deriving DecidableEq, Repr

/-- The flags of a directive. -/
structure Flags where
  leftAligned : Bool := false
  signed : Bool := false
  blank : Bool := false
  alternate : Bool := false
  zeros : Bool := false
  deriving DecidableEq, Repr

/-- A width or a precision. -/
inductive Size where
  | absent
  | given (n : Nat)
  /-- The next argument says it. -/
  | argument
  deriving DecidableEq, Repr

/-- A directive. Its conversion is missing if the template ends before it. -/
structure Directive where
  key : Key := .absent
  flags : Flags := {}
  width : Size := .absent
  precision : Size := .absent
  conversion : Option Char := none
  /-- How many characters of the template come before the conversion. -/
  index : Nat := 0
  deriving DecidableEq, Repr

/-- A character of a template, or a directive. -/
inductive Piece where
  | char (c : Char)
  | directive (d : Directive)
  deriving DecidableEq, Repr

/-- The characters up to the closing bracket, inside which `depth` more brackets are open, and what
    follows it. -/
def readKey : (depth : Nat) → List Char → Option (List Char × List Char)
  | _, [] => none
  | 0, ')' :: cs => some ([], cs)
  | depth + 1, ')' :: cs => (readKey depth cs).map fun (key, rest) => (')' :: key, rest)
  | depth, '(' :: cs => (readKey (depth + 1) cs).map fun (key, rest) => ('(' :: key, rest)
  | depth, c :: cs => (readKey depth cs).map fun (key, rest) => (c :: key, rest)

/-- Reads flags. -/
def readFlags (flags : Flags) : List Char → Flags × List Char
  | '-' :: cs => readFlags { flags with leftAligned := true } cs
  | '+' :: cs => readFlags { flags with signed := true } cs
  | ' ' :: cs => readFlags { flags with blank := true } cs
  | '#' :: cs => readFlags { flags with alternate := true } cs
  | '0' :: cs => readFlags { flags with zeros := true } cs
  | cs => (flags, cs)

/-- Reads a width or a precision. -/
def readSize (cs : List Char) : Size × List Char :=
  match cs with
  | '*' :: rest => (.argument, rest)
  | _ =>
    let digits := cs.takeWhile Char.isDigit
    (if digits.isEmpty then .absent else .given (Text.digitsValue digits), cs.dropWhile Char.isDigit)

/-- Reads a point and a precision; a point alone is the precision zero. -/
def readPrecision (cs : List Char) : Size × List Char :=
  match cs with
  | '.' :: rest =>
    match readSize rest with
    | (.absent, rest) => (.given 0, rest)
    | other => other
  | _ => (.absent, cs)

/-- Drops one of the letters that once told how long an integer is. -/
def dropLength : List Char → List Char
  | 'h' :: cs => cs
  | 'l' :: cs => cs
  | 'L' :: cs => cs
  | cs => cs

/-- Reads a directive behind its percent sign, in a template of `length` characters. -/
def readDirective (length : Nat) (cs : List Char) : Directive × List Char :=
  let (key, cs) : Key × List Char := match cs with
    | '(' :: rest => match readKey 0 rest with
      | some (name, rest) => (.named (String.ofList name), rest)
      | none => (.unclosed, [])
    | _ => (.absent, cs)
  let (flags, cs) := readFlags {} cs
  let (width, cs) := readSize cs
  let (precision, cs) := readPrecision cs
  let cs := dropLength cs
  ({ key, flags, width, precision, conversion := cs.head?, index := length - cs.length }, cs.tail)

/-- Reads a template of `length` characters. Every step takes a character, so `steps` need not exceed
    their number. -/
def readPieces (length : Nat) : (steps : Nat) → List Char → List Piece
  | 0, _ => []
  | _ + 1, [] => []
  | steps + 1, '%' :: '%' :: cs => .char '%' :: readPieces length steps cs
  | steps + 1, '%' :: cs =>
    let (d, rest) := readDirective length cs
    .directive d :: readPieces length steps rest
  | steps + 1, c :: cs => .char c :: readPieces length steps cs

/-- The pieces of a template. -/
def pieces (template : String) : List Piece :=
  let cs := template.toList
  readPieces cs.length cs.length cs

end RowQuery.Template
