import RowQuery.Number.Rounded
import RowQuery.Template.Directive

/-!
# Conversions

How a directive writes its argument: as an integer in one of three bases, as a floating point number
in one of three notations, as a character or as a text; and how the result is laid out in its width.
-/

namespace RowQuery.Template

open RowQuery.Number

/-- A directive whose sizes are known. -/
structure Format where
  flags : Flags := {}
  width : Nat := 0
  precision : Option Nat := none
  conversion : Char
  deriving DecidableEq, Repr

/-- What a conversion writes: an optional sign, the mark of a base and the rest. -/
structure Written where
  sign : List Char := []
  mark : List Char := []
  body : List Char
  deriving DecidableEq, Repr

/-- Lays out what is written: zeros go between the mark and the body, blanks before or behind all. -/
def Format.layOut (f : Format) (zeros : Bool) (w : Written) : List Char :=
  let taken := w.sign.length + w.mark.length + w.body.length
  let gap := f.width - taken
  if f.flags.leftAligned then w.sign ++ w.mark ++ w.body ++ List.replicate gap ' '
  else if zeros then w.sign ++ w.mark ++ List.replicate gap '0' ++ w.body
  else List.replicate gap ' ' ++ w.sign ++ w.mark ++ w.body

/-- The sign of a number. -/
def Format.sign (f : Format) (negative : Bool) : List Char :=
  if negative then ['-'] else if f.flags.signed then ['+'] else if f.flags.blank then [' '] else []

/-- The base of an integer conversion. -/
def base (conversion : Char) : Nat :=
  if conversion = 'o' then 8 else if conversion = 'x' || conversion = 'X' then 16 else 10

/-- An integer in its base, with zeros up to the precision. -/
def Format.integer (f : Format) (n : Int) : List Char :=
  let digits := Nat.toDigits (base f.conversion) n.natAbs
  let digits := if f.conversion = 'X' then digits.map Char.toUpper else digits
  let mark := if f.flags.alternate && base f.conversion != 10 then ['0', f.conversion] else []
  f.layOut f.flags.zeros
    { sign := f.sign (n < 0), mark, body := zeroPadded (f.precision.getD 0) digits }

/-- The integer part of a floating point number. -/
def truncate (x : Binary64) : Except TemplateFault Int :=
  match x.integerPart? with
  | some n => .ok n
  | none => .error (if x.magnitude = Binary64.infinity then .infinite else .undefined)

/-- The integer that an integer conversion writes. -/
def Format.toInteger (f : Format) (v : Detail) : Except TemplateFault Int :=
  match v with
  | .int n => .ok n
  | .bool b => .ok (if b then 1 else 0)
  | .float x =>
    if base f.conversion = 10 then truncate x else .error (.notWhole f.conversion v.className)
  | _ =>
    if base f.conversion = 10 then .error (.notANumber f.conversion v.className)
    else .error (.notWhole f.conversion v.className)

/-- The floating point number nearest to an integer. -/
def floatOfInt (n : Int) : Except TemplateFault Binary64 :=
  let magnitude := Binary64.nearest n.natAbs 1
  if magnitude = Binary64.infinity then .error .beyondFloats else .ok ⟨n < 0, magnitude⟩

/-- The floating point number that a floating point conversion writes. -/
def toFloat (v : Detail) : Except TemplateFault Binary64 :=
  match v with
  | .float x => .ok x
  | .int n => floatOfInt n
  | .bool b => floatOfInt (if b then 1 else 0)
  | _ => .error (.notReal v.className)

/-- The magnitude of a floating point number in the notation of a conversion. -/
def Format.magnitude (f : Format) (magnitude : Nat) : List Char :=
  let digits := f.precision.getD 6
  if Binary64.infinity < magnitude then ['n', 'a', 'n']
  else if magnitude = Binary64.infinity then ['i', 'n', 'f']
  else
    let (n, d) := Binary64.toFraction magnitude
    match f.conversion.toLower with
    | 'e' => scientific n d digits f.flags.alternate
    | 'f' => fixed n d digits f.flags.alternate
    | _ => general n d digits f.flags.alternate

/-- A floating point number; a capital conversion writes capitals. -/
def Format.float (f : Format) (x : Binary64) : List Char :=
  let body := f.magnitude x.magnitude
  let body := if f.conversion.isUpper then body.map Char.toUpper else body
  let negative := x.negative && x.magnitude ≤ Binary64.infinity
  f.layOut f.flags.zeros { sign := f.sign negative, body }

/-- A character, or the character of a number. -/
def toChar : Detail → Except TemplateFault Char
  | .text s => match s.toList with
    | [c] => .ok c
    | _ => .error .notACharacter
  | .int n => if 0 ≤ n && n < 0x110000 then .ok (Char.ofNat n.toNat) else .error .characterOutOfRange
  | .bool b => .ok (Char.ofNat (if b then 1 else 0))
  | _ => .error .notACharacter

/-- A text in which every character beyond ASCII is written by its number. -/
def asciiOnly (s : String) : List Char :=
  s.toList.flatMap fun c =>
    if c.toNat < 0x80 then [c]
    else if c.toNat < 0x100 then ['\\', 'x'] ++ Text.hexPadded 2 c.toNat
    else if c.toNat < 0x10000 then ['\\', 'u'] ++ Text.hexPadded 4 c.toNat
    else ['\\', 'U'] ++ Text.hexPadded 8 c.toNat

/-- The length from which on there is no room for a text. -/
def room : Nat := 1 <<< 30

/-- Checks that there is room for a width, and for a precision if zeros fill it. -/
def Format.checkRoom (f : Format) (filled : Bool) : Except TemplateFault Unit :=
  if room ≤ f.width || (filled && room ≤ f.precision.getD 0) then .error .noRoom else .ok ()

/-- A text in the width of a format, cut to its precision. -/
def Format.text (f : Format) (cs : List Char) : Except TemplateFault (List Char) := do
  f.checkRoom false
  let body := match f.precision with
    | some n => cs.take n
    | none => cs
  return f.layOut false { body }

/-- Writes an argument; `index` is where the conversion stands in the template. -/
def Format.write (f : Format) (index : Nat) (v : Detail) : Except TemplateFault (List Char) :=
  match f.conversion with
  | 's' => f.text v.plain.toList
  | 'r' => f.text v.display.toList
  | 'a' => f.text (asciiOnly v.display)
  | 'd' | 'i' | 'u' | 'o' | 'x' | 'X' => do
    let n ← f.toInteger v
    f.checkRoom true
    return f.integer n
  | 'e' | 'E' | 'f' | 'F' | 'g' | 'G' => do
    let x ← toFloat v
    f.checkRoom true
    return f.float x
  | 'c' => do
    let c ← toChar v
    f.checkRoom false
    return f.layOut false { body := [c] }
  | c => .error (.unknownConversion c index)

end RowQuery.Template
