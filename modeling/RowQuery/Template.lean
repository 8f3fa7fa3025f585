import RowQuery.Template.Conversion

/-!
# Filling templates

The directives of a template take their arguments one after the other, or by name if the only
argument is a record. All arguments in a row have to be taken.
-/

namespace RowQuery.Template

/-- The arguments that are left. -/
inductive Arguments where
  | row (rest : List Detail)
  /-- A record whose entries are taken by name, and the value that is taken without one. -/
  | named (entries : List (String × Detail)) (next : Option Detail)

namespace Arguments

/-- Arguments: a single record that is not empty is taken by name. -/
def ofList : List Detail → Arguments
  | [.record (entry :: entries)] => .named (entry :: entries) (some (.record (entry :: entries)))
  | args => .row args

/-- Takes the next argument. -/
def take : Arguments → Except TemplateFault (Detail × Arguments)
  | .row (v :: rest) => .ok (v, .row rest)
  | .named entries (some v) => .ok (v, .named entries none)
  | .row [] | .named _ none => .error .tooFewArguments

/-- Makes the argument of a name the next one. -/
def select (args : Arguments) : Key → Except TemplateFault Arguments
  | .absent => .ok args
  | .named name => match args with
    | .row _ => .error .noMapping
    | .named entries _ => match entries.lookup name with
      | some v => .ok (.named entries (some v))
      | none => .error (.missingKey name)
  | .unclosed => match args with
    | .row _ => .error .noMapping
    | .named _ _ => .error .openKey

/-- Checks that no argument is left over. -/
def finish : Arguments → Except TemplateFault Unit
  | .row (_ :: _) => .error .tooManyArguments
  | _ => .ok ()

end Arguments

/-- The greatest width and the greatest precision. -/
def maxWidth : Nat := 0x7FFFFFFFFFFFFFFF

@[inherit_doc maxWidth]
def maxPrecision : Nat := 0x7FFFFFFF

/-- A size: the number, if there is one, and the arguments that are left. -/
def Size.resolve (size : Size) (max : Nat) (tooBig overflow : TemplateFault) (args : Arguments) :
    Except TemplateFault (Option Int × Arguments) :=
  let bounded (n : Int) (rest : Arguments) : Except TemplateFault (Option Int × Arguments) :=
    if n.natAbs ≤ max then .ok (some n, rest) else .error overflow
  match size with
  | .absent => .ok (none, args)
  | .given n => if n ≤ max then .ok (some n, args) else .error tooBig
  | .argument => do
    match ← args.take with
    | (.int n, rest) => bounded n rest
    | (.bool b, rest) => bounded (if b then 1 else 0) rest
    | _ => .error .starNotWhole

/-- Writes a directive. A negative width aligns to the left; a negative precision is zero. -/
def Directive.write (d : Directive) (args : Arguments) :
    Except TemplateFault (List Char × Arguments) := do
  let args ← args.select d.key
  let (width, args) ← d.width.resolve maxWidth .widthTooBig .widthOverflow args
  let (precision, args) ← d.precision.resolve maxPrecision .precisionTooBig .precisionOverflow args
  match d.conversion with
  | none => throw .incomplete
  | some conversion =>
    let (v, args) ← args.take
    let width := width.getD 0
    let flags := if width < 0 then { d.flags with leftAligned := true } else d.flags
    let f : Format :=
      { flags, width := width.natAbs, precision := precision.map Int.toNat, conversion }
    return (← f.write d.index v, args)

/-- Writes the pieces of a template one after the other. -/
def fillPieces : List Piece → Arguments → Except TemplateFault (List Char)
  | [], args => args.finish.map fun _ => []
  | .char c :: rest, args => (fillPieces rest args).map (c :: ·)
  | .directive d :: rest, args => do
    let (text, args) ← d.write args
    return text ++ (← fillPieces rest args)

/-- A template with its arguments filled in. Without arguments a template stands for itself. -/
def fill (template : String) (args : List Detail) : Except TemplateFault String :=
  if args.isEmpty then .ok template
  else (fillPieces (pieces template) (.ofList args)).map String.ofList

end RowQuery.Template
