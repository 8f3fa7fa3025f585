import RowQuery.Conversion
import RowQuery.Operation
import RowQuery.Problem
import RowQuery.Report
import RowQuery.Template.Fault

/-!
# Errors

Everything that can go wrong, by its cause. `Error.fault` is what a caller is told: most causes make
a report; a name that is not known, a draft with problems and a value that is not fit for its use have
plain texts.
-/

namespace RowQuery

/-- The causes of failure. -/
inductive Error where
  /-- The request has none of the known parameters. -/
  | emptyQuery
  | shortFilter (param : String)
  | unknownOperator (param operator : String)
  | incompleteFilter (param : String)
  | malformedFilter (param : String) (complaint : Complaint)
  | namelessSort (param : String)
  /-- A filter ends at a relation. -/
  | relationCompared (filter : String)
  /-- A sort ends at a relation. -/
  | relationSorted (sort : String)
  /-- A sort that no field matches cannot be written as it stands. -/
  | malformedSort (sort : String)
  /-- A range comparison over all languages of a translated column. -/
  | acrossLanguages (filter : String) (operation : Operation)
  | fieldNotFound (entity field path : String)
  | notAnEntity (entity : String)
  /-- A field type refers to an entity that is not declared. -/
  | unresolved (name entity : String)
  | exclusiveTags (entity field : String)
  | searchPattern (entity field search : String)
  | translatedRelation (entity field : String)
  | strayRelationTag (entity field : String)
  | noTarget (field : String)
  | tooDeep (path : String) (maxDepth : Detail)
  | cyclicSearch (field : String) (chain : List String)
  /-- A subquery is asked for a field that is no relation. -/
  | notARelation (field : String)
  /-- A join is asked for a field that is no relation. -/
  | notJoinable (field : String)
  | joinNotFound (path : String)
  | emptyJoinTag (tag : String)
  | unknownRelationship (word tag : String)
  | joinWithoutTable (path : String)
  | missingKeys (type : RelationType) (path : String) (keys : List JoinKey)
  | strayKeys (type : RelationType) (path : String) (keys : List JoinKey)
  | unsupportedKind (filter value : String)
  | inconvertible (filter value : String) (kind : ColumnKind) (fault : ConversionFault)
  | unknownDialect (name : Detail)
  /-- A value is to be split for an operation that takes no list. -/
  | notAList (operation : Operation)
  /-- Nothing goes by this name. -/
  | unknownName (name : String)
  | invalid (problems : List Problem)
  /-- A value is none of the members of an enumeration. -/
  | notAMember (enumeration : String) (value : Detail)
  /-- There is no setting of this name. -/
  | unknownSetting (name : String)
  /-- A value of a class has no part of this name. -/
  | lacks (className part : String)
  /-- Two values, one of which is no text, are to be put one after the other. -/
  | unjoinable (left right : Detail)
  /-- Two values of classes that have no common order are to be compared. -/
  | incomparable (left right : Detail)
  /-- A value that has parts of its own is looked up. -/
  | compositeKey (value : Detail)
  /-- A value of a class that has no integer part is to be read as an integer. -/
  | noIntegerPart (value : Detail)
  /-- An integer has more digits than are written. -/
  | longNumeral
  /-- A part of a report is given twice, by its place and by its name. -/
  | repeatedPart (name : String)
  /-- A message and its arguments do not go together. -/
  | unfit (fault : TemplateFault)
  deriving DecidableEq, Repr

/-- What a caller is told. -/
inductive Fault where
  | report (r : Report)
  /-- A look-up found nothing; the text displays what was looked up. -/
  | lookup (text : String)
  | validation (text : String)
  | value (text : String)
  /-- A value is of another class than its use needs. -/
  | type (text : String)
  /-- A value has no part of some name. -/
  | part (text : String)
  /-- A number is too large for its use. -/
  | overflow (text : String)
  /-- There is no room for a value. -/
  | memory (text : String)
  deriving Repr

namespace Error

/-- The names of keys, joined by commas. -/
def keyNames (keys : List JoinKey) : String := ", ".intercalate (keys.map JoinKey.name)

/-- What a caller is told about a cause. -/
def fault : Error → Fault
  | emptyQuery => .report ⟨.query, "Query not found", []⟩
  | shortFilter param =>
    .report ⟨.filter, "filter param can't be shorter than 3", [("param", .text param)]⟩
  | unknownOperator param operator =>
    .report ⟨.operator, "invalid operation", [("param", .text param), ("operator", .text operator)]⟩
  | incompleteFilter param =>
    .report ⟨.filter, "filter name or value is missing", [("param", .text param)]⟩
  | malformedFilter param complaint =>
    .report ⟨.filter, "invalid filter", [("param", .text param), ("error", .text complaint.message)]⟩
  | namelessSort param => .report ⟨.sort, "sort param needs a field name", [("param", .text param)]⟩
  | relationCompared filter =>
    .report ⟨.filter, "cannot compare a relation directly", [("filter", .text filter)]⟩
  | relationSorted sort => .report ⟨.sort, "cannot sort by a relation", [("sort", .text sort)]⟩
  | malformedSort sort => .report ⟨.sort, "invalid sort path", [("sort", .text sort)]⟩
  | acrossLanguages filter operation =>
    .report ⟨.operator, "operator not supported across all languages",
      [("filter", .text filter), ("operation", .text operation.name)]⟩
  | fieldNotFound entity field path =>
    .report ⟨.fieldNotFound, "Can't find field",
      [("entity", .text entity), ("field", .text field), ("path", .text path)]⟩
  | notAnEntity entity =>
    .report ⟨.invalidSchema, "Entity must be a pydantic model", [("entity", .text entity)]⟩
  | unresolved name entity =>
    .report ⟨.invalidSchema, "Unresolved annotation: name '" ++ name ++ "' is not defined",
      [("entity", .text entity)]⟩
  | exclusiveTags entity field =>
    .report ⟨.invalidSchema, "polymorphic and many2many tags are mutually exclusive",
      [("entity", .text entity), ("field", .text field)]⟩
  | searchPattern entity field search =>
    .report ⟨.invalidSchema, "search pattern must contain exactly one '*'",
      [("entity", .text entity), ("field", .text field), ("search", .text search)]⟩
  | translatedRelation entity field =>
    .report ⟨.invalidSchema, "relation fields can't be translated",
      [("entity", .text entity), ("field", .text field)]⟩
  | strayRelationTag entity field =>
    .report ⟨.invalidSchema, "relation tags need an entity-typed field",
      [("entity", .text entity), ("field", .text field)]⟩
  | noTarget field =>
    .report ⟨.invalidSchema, "relation has no target entity", [("field", .text field)]⟩
  | tooDeep path maxDepth =>
    .report ⟨.invalidSchema, "relation path too deep",
      [("path", .text path), ("max_depth", maxDepth)]⟩
  | cyclicSearch field chain =>
    .report ⟨.invalidSchema, "cyclic searchable relation",
      [("field", .text field), ("chain", .text (" -> ".intercalate chain))]⟩
  | notARelation field =>
    .report ⟨.invalidSchema, "field is not a relation", [("field", .text field)]⟩
  | notJoinable field =>
    .report ⟨.invalidJoin, "field is not a relation", [("field", .text field)]⟩
  | joinNotFound path =>
    .report ⟨.joinNotFound, "no join configuration found for field path", [("path", .text path)]⟩
  | emptyJoinTag tag => .report ⟨.invalidJoin, "empty join tag", [("tag", .text tag)]⟩
  | unknownRelationship word tag =>
    .report ⟨.invalidJoin, "unsupported relationship type: " ++ word, [("tag", .text tag)]⟩
  | joinWithoutTable path => .report ⟨.invalidJoin, "table is required", [("path", .text path)]⟩
  | missingKeys type path keys =>
    .report ⟨.invalidJoin,
      keyNames type.group.keys ++ " are required for " ++ type.name ++ " relationships",
      [("path", .text path), ("missing", .texts (keys.map JoinKey.name))]⟩
  | strayKeys type path keys =>
    .report ⟨.invalidJoin, "keys not valid for " ++ type.name ++ " relationships",
      [("path", .text path), ("keys", .texts (keys.map JoinKey.name))]⟩
  | unsupportedKind filter value =>
    .report ⟨.conversion, "Column kind not supported",
      [("filter", .text filter), ("value", .text value), ("kind", .text "None")]⟩
  | inconvertible filter value kind fault =>
    .report ⟨.conversion, "Cannot convert filter value: " ++ fault.message,
      [("filter", .text filter), ("value", .text value), ("kind", .text kind.name)]⟩
  | unknownDialect name => .lookup name.display
  | notAList operation =>
    .lookup ("<Operation." ++ operation.name ++ ": " ++ Text.display operation.name ++ ">")
  | unknownName name => .lookup (Text.display name)
  | invalid problems => .validation ("; ".intercalate (problems.map Problem.message))
  | notAMember enumeration value => .value (value.display ++ " is not a valid " ++ enumeration)
  | unknownSetting name => .value ("\"QapiSettings\" object has no field \"" ++ name ++ "\"")
  | lacks className part =>
    .part ("'" ++ className ++ "' object has no attribute '" ++ part ++ "'")
  | unjoinable (.text _) right =>
    .type ("can only concatenate str (not \"" ++ right.className ++ "\") to str")
  | unjoinable left right =>
    .type ("unsupported operand type(s) for +: '" ++ left.className ++ "' and '" ++ right.className ++
      "'")
  | incomparable left right =>
    .type ("'>' not supported between instances of '" ++ left.className ++ "' and '" ++
      right.className ++ "'")
  | compositeKey value => .type ("unhashable type: '" ++ value.className ++ "'")
  | noIntegerPart value =>
    .type ("int() argument must be a string, a bytes-like object or a real number, not '" ++
      value.className ++ "'")
  | longNumeral =>
    .value ("Exceeds the limit (" ++ toString Number.maxDigits ++ " digits) for integer string " ++
      "conversion; use sys.set_int_max_str_digits() to increase the limit")
  | repeatedPart name =>
    .type ("QapiError.__init__() got multiple values for argument '" ++ name ++ "'")
  | unfit fault => match fault.category with
    | .type => .type fault.message
    | .value => .value fault.message
    | .lookup => .lookup fault.message
    | .overflow => .overflow fault.message
    | .memory => .memory fault.message

/-- The report of a kind with a message and named details. The names of its own parts are taken. -/
def makeReport (kind : ReportKind) (message : String) (details : List (String × Detail)) :
    Except Error Report :=
  match details.find? fun (name, _) => name == "self" || name == "message" with
  | some (name, _) => .error (.repeatedPart name)
  | none => .ok { kind, message, details }

end Error

/-- The text of what a caller is told. -/
def Fault.text : Fault → String
  | .report r => r.text
  | .lookup text | .validation text | .value text | .type text | .part text
  | .overflow text | .memory text => text

end RowQuery
