import RowQuery.Detail

/-!
# Faults of templates

Why a template and its arguments do not go together.
-/

namespace RowQuery

/-- Why a template cannot be filled. -/
inductive TemplateFault where
  | tooFewArguments
  | tooManyArguments
  /-- A directive names its argument, but the arguments have no names. -/
  | noMapping
  /-- The name of an argument does not end. -/
  | openKey
  | missingKey (name : String)
  /-- A width or a precision that is an argument is no integer. -/
  | starNotWhole
  | widthOverflow
  | precisionOverflow
  | widthTooBig
  | precisionTooBig
  /-- The template ends inside a directive. -/
  | incomplete
  | unknownConversion (c : Char) (index : Nat)
  | notANumber (conversion : Char) (className : String)
  | notWhole (conversion : Char) (className : String)
  | notReal (className : String)
  | notACharacter
  | characterOutOfRange
  /-- Infinity has no integer part. -/
  | infinite
  /-- What is no number has no integer part. -/
  | undefined
  /-- An integer is beyond all floating point numbers. -/
  | beyondFloats
  /-- There is no room for a text of the length asked for. -/
  | noRoom
  deriving DecidableEq, Repr

/-- What a fault is a mistake about. -/
inductive TemplateFault.Category where
  | type
  | value
  | lookup
  | overflow
  | memory
  deriving DecidableEq, Repr

namespace TemplateFault

/-- The category of a fault. -/
def category : TemplateFault → Category
  | .tooFewArguments | .tooManyArguments | .noMapping | .starNotWhole | .notANumber _ _
  | .notWhole _ _ | .notReal _ | .notACharacter => .type
  | .openKey | .widthTooBig | .precisionTooBig | .incomplete | .unknownConversion _ _
  | .undefined => .value
  | .missingKey _ => .lookup
  | .widthOverflow | .precisionOverflow | .characterOutOfRange | .infinite
  | .beyondFloats => .overflow
  | .noRoom => .memory

/-- A character that is not known as a conversion, if it can be shown. -/
def shown (c : Char) : Char := if 31 ≤ c.toNat && c.toNat ≤ 126 then c else '?'

/-- The wording of a fault. -/
def message : TemplateFault → String
  | .tooFewArguments => "not enough arguments for format string"
  | .tooManyArguments => "not all arguments converted during string formatting"
  | .noMapping => "format requires a mapping"
  | .openKey => "incomplete format key"
  | .missingKey name => Text.display name
  | .starNotWhole => "* wants int"
  | .widthOverflow => "Python int too large to convert to C ssize_t"
  | .precisionOverflow => "Python int too large to convert to C int"
  | .widthTooBig => "width too big"
  | .precisionTooBig => "precision too big"
  | .incomplete => "incomplete format"
  | .unknownConversion c index =>
    "unsupported format character '" ++ String.ofList [shown c] ++ "' (0x" ++
      String.ofList (Nat.toDigits 16 c.toNat) ++ ") at index " ++ toString index
  | .notANumber conversion className =>
    "%" ++ String.ofList [conversion] ++ " format: a real number is required, not " ++ className
  | .notWhole conversion className =>
    "%" ++ String.ofList [conversion] ++ " format: an integer is required, not " ++ className
  | .notReal className => "must be real number, not " ++ className
  | .notACharacter => "%c requires int or char"
  | .characterOutOfRange => "%c arg not in range(0x110000)"
  | .infinite => "cannot convert float infinity to integer"
  | .undefined => "cannot convert float NaN to integer"
  | .beyondFloats => "int too large to convert to float"
  | .noRoom => ""

end TemplateFault

end RowQuery
