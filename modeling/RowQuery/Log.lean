import RowQuery.Settings
import RowQuery.Template

/-!
# The log

What is compiled is recorded under the name of the component that did it. Records have levels; one of
level zero is never kept.
-/

namespace RowQuery.Log

/-- The levels of records. -/
inductive Level where
  | unset
  | debug
  | info
  | warning
  | error
  | critical
  deriving DecidableEq, Repr

namespace Level

/-- The number of a level. -/
def number : Level → Nat
  | .unset => 0
  | .debug => 10
  | .info => 20
  | .warning => 30
  | .error => 40
  | .critical => 50

/-- The name of a level. -/
def name : Level → String
  | .unset => "NOTSET"
  | .debug => "DEBUG"
  | .info => "INFO"
  | .warning => "WARNING"
  | .error => "ERROR"
  | .critical => "CRITICAL"

/-- The level that a name in capitals stands for; two have a second name. -/
def ofName? (s : String) : Option Level :=
  if s == "WARN" then some .warning
  else if s == "FATAL" then some .critical
  else [unset, debug, info, warning, error, critical].find? (·.name == s)

/-- The level that a name in any case stands for; names that are not known stand for `info`. -/
def ofText (s : String) : Level := (ofName? (Text.toCapitals s)).getD .info

end Level

/-- The level of summaries, as the settings have it. A setting that counts as false stands for
    `info`; any other has to be a text. -/
def summaryLevel (settings : Settings) : Except Error Level :=
  if settings.logLevel.isTrue then (settings.logLevel.textWith "upper").map .ofText else .ok .info

/-- The full name of a component; the empty name is that of the whole. -/
def componentName (name : String) : String :=
  if name == "" then "qapisql" else "qapisql." ++ name

/-- A record. -/
structure Record where
  level : Level
  component : String
  text : String
  deriving DecidableEq, Repr

/-- A record of a component. -/
def record (level : Level) (component text : String) : Record :=
  { level, component := componentName component, text }

/-- A record of a piece of SQL and the values bound in it. -/
def fragment (component kind sql : String) (args : List String) : Record :=
  record .debug component (kind ++ " fragment: " ++ sql ++ " args=" ++ Text.displayList args)

/-- Whether records of a level are kept from another level on. -/
def Level.isKeptFrom (level least : Level) : Bool :=
  level != .unset && least.number ≤ level.number

/-- The records that are kept from a level on. -/
def keptFrom (level : Level) (records : List Record) : List Record :=
  records.filter fun r => r.level.isKeptFrom level

/-- A record whose text is a template with its arguments filled in. -/
def templateRecord (level : Level) (component template : String) (args : List Detail) :
    Except Error Record :=
  ((Template.fill template args).mapError .unfit).map (record level component)

/-- The state of the logging of the whole process: its level, how many places records go to, and
    whether it has been set up. -/
structure Setup where
  level : Nat := 30
  handlers : Nat := 0
  configured : Bool := false
  deriving DecidableEq, Repr

/-- Sets up the logging, unless that has been done. -/
def Setup.configure (s : Setup) (level : String) : Setup :=
  if s.configured then s
  else { level := (Level.ofText level).number, handlers := s.handlers + 1, configured := true }

end RowQuery.Log
