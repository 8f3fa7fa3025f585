import RowQuery.Proofs.RelationFilters
import RowQuery.Proofs.WellFormedSchemas

/-!
# How compilations fail

`Fails P` says of a computation that all its errors have a property. A stage of a compilation fails in few
ways, and in none where it has what it needs: a relation of a well-formed schema can be written as a
subselect and has a configuration, and a valid configuration can be joined.
-/

namespace RowQuery

/-- The kind of report that callers are told of an error by; none if they are told otherwise. -/
def Error.kind? (e : Error) : Option ReportKind :=
  match e.fault with
  | .report r => some r.kind
  | _ => none

/-- A computation all of whose errors have a property. -/
def Fails {α : Type} (P : Error → Prop) (x : Except Error α) : Prop := ∀ e, x = .error e → P e

namespace Fails

variable {α β : Type} {P Q : Error → Prop} {x : Except Error α}

theorem ok (a : α) : Fails P (.ok a) := nofun

theorem error {e : Error} (holds : P e) : Fails (α := α) P (.error e) := by
  intro e' same
  cases same
  exact holds

theorem of_ok {a : α} (succeeds : x = .ok a) : Fails P x := succeeds ▸ ok a

theorem mono (fails : Fails P x) (imp : ∀ e, P e → Q e) : Fails Q x := fun e failed => imp e (fails e failed)

theorem bind {f : α → Except Error β} (first : Fails P x) (next : ∀ a, x = .ok a → Fails P (f a)) :
    Fails P (x >>= f) := by
  intro e failed
  cases outcome : x with
  | error e' =>
    rw [outcome] at failed
    cases failed
    exact first e outcome
  | ok a =>
    rw [outcome] at failed
    exact next a outcome e failed

theorem map (fails : Fails P x) (f : α → β) : Fails P (x.map f) := by
  cases x with
  | error e => exact error (fails e rfl)
  | ok a => exact ok (f a)

theorem mapM {f : α → Except Error β} {xs : List α} (each : ∀ a ∈ xs, Fails P (f a)) :
    Fails P (xs.mapM f) := by
  induction xs with
  | nil => exact ok []
  | cons a xs ih =>
    rw [List.mapM_cons]
    refine (each a List.mem_cons_self).bind fun b _ => Fails.bind ?_ fun bs _ => ok (b :: bs)
    exact ih fun a member => each a (List.mem_cons_of_mem _ member)

theorem forM {f : α → Except Error Unit} {xs : List α} (each : ∀ a ∈ xs, Fails P (f a)) : Fails P (xs.forM f) := by
  induction xs with
  | nil => exact ok ()
  | cons a xs ih =>
    exact (each a List.mem_cons_self).bind fun _ _ => ih fun a member => each a (List.mem_cons_of_mem _ member)

theorem foldlM {f : β → α → Except Error β} {xs : List α} (step : ∀ b, ∀ a ∈ xs, Fails P (f b a)) (b : β) :
    Fails P (xs.foldlM f b) := by
  induction xs generalizing b with
  | nil => exact ok b
  | cons a xs ih =>
    rw [List.foldlM_cons]
    refine (step b a List.mem_cons_self).bind fun b' _ => ?_
    exact ih (fun b a member => step b a (List.mem_cons_of_mem _ member)) b'

end Fails

end RowQuery

/-! ## Schemas -/

namespace RowQuery.Schema.Catalog

variable (c : Catalog)

/-- What can be wrong with the declaration of an entity. -/
inductive Misdeclared : Error → Prop where
  | notAnEntity (entity : String) : Misdeclared (.notAnEntity entity)
  | unresolved (name entity : String) : Misdeclared (.unresolved name entity)
  | exclusiveTags (entity field : String) : Misdeclared (.exclusiveTags entity field)
  | searchPattern (entity field search : String) : Misdeclared (.searchPattern entity field search)
  | translatedRelation (entity field : String) : Misdeclared (.translatedRelation entity field)
  | strayRelationTag (entity field : String) : Misdeclared (.strayRelationTag entity field)

theorem Misdeclared.kind?_eq {e : Error} (wrong : Misdeclared e) : e.kind? = some .invalidSchema := by
  cases wrong <;> rfl

theorem fails_fieldOf (entity name : String) (peeled : FieldType.Peeled) :
    Fails Misdeclared (c.fieldOf entity name peeled) := by
  simp only [fieldOf]
  split
  · split
    · exact .error (.translatedRelation _ _)
    · exact .ok _
  · split
    · exact .error (.strayRelationTag _ _)
    · exact .ok _

theorem fails_describeField (entity name : String) (type : FieldType) :
    Fails Misdeclared (c.describeField entity name type) := by
  simp only [describeField]
  split
  · exact .error (.exclusiveTags _ _)
  · split
    · split
      · exact .error (.searchPattern _ _ _)
      · exact c.fails_fieldOf entity name type.peel
    · exact c.fails_fieldOf entity name type.peel

theorem fails_describe (name : String) : Fails Misdeclared (c.describe name) := by
  unfold describe
  split
  · unfold describeEntity
    split
    · exact .error (.unresolved _ _)
    · exact (Fails.mapM fun x _ => c.fails_describeField _ _ _).bind fun _ _ => .ok _
  · exact .error (.notAnEntity _)

end RowQuery.Schema.Catalog

namespace RowQuery.Compile

open RowQuery.Schema RowQuery.Sql RowQuery.Join

/-- A context whose schemas are those of a catalog. -/
def Context.Over (c : Catalog) (ctx : Context) : Prop :=
  ∀ subject, ctx.schemaOf subject = ({} : Cache).describe c subject

theorem result_related {ctx : Context} {f : Field} {target : String} (leads : f.target = some target) :
    (ctx.related f).result = ctx.schemaOf (.entity target) := by
  rw [Context.related, leads, result_describe]

namespace Context.Over

variable {c : Catalog} {ctx : Context}

/-- A subject that has a schema is an entity of the catalog. -/
theorem exists_describe (schemas : ctx.Over c) {subject : Subject} {schema : Schema}
    (ok : ctx.schemaOf subject = .ok schema) : ∃ name, c.describe name = .ok schema := by
  rw [schemas, Cache.describe] at ok
  cases entity : subject.entity? with
  | none => simp [entity] at ok
  | some name => exact ⟨name, by simpa [entity, Cache.get?] using ok⟩

theorem fails_schemaOf (schemas : ctx.Over c) (subject : Subject) :
    Fails Catalog.Misdeclared (ctx.schemaOf subject) := by
  rw [schemas, Cache.describe]
  split
  · exact .error (.notAnEntity _)
  · exact c.fails_describe _

theorem wellFormed (schemas : ctx.Over c) {subject : Subject} {schema : Schema}
    (ok : ctx.schemaOf subject = .ok schema) : ∀ f ∈ schema.fields, f.WellFormed c := by
  obtain ⟨name, described⟩ := schemas.exists_describe ok
  exact Catalog.wellFormed_of_describe described

/-- The entity behind a relation is described, unless it is misdeclared. -/
theorem exists_related (schemas : ctx.Over c) {subject : Subject} {schema : Schema} {f : Field}
    (ok : ctx.schemaOf subject = .ok schema) (field : f ∈ schema.fields) (relation : f.isRelation = true) :
    ∃ target, (ctx.related f).result = ctx.schemaOf (.entity target) := by
  obtain ⟨target, leads⟩ := Option.isSome_iff_exists.mp ((schemas.wellFormed ok f field).target.mp relation)
  exact ⟨target, result_related leads⟩

end Context.Over

/-! ## Columns and values -/

/-- A property that the errors of values have: a value that is none of a column's kind, and a comparison
    that means nothing across languages. -/
structure OfValues (P : Error → Prop) : Prop where
  unsupported : ∀ filter value, P (.unsupportedKind filter value)
  inconvertible : ∀ filter value kind fault, P (.inconvertible filter value kind fault)
  acrossLanguages : ∀ filter operation, P (.acrossLanguages filter operation)

/-- A property that the errors of paths have: an entity that is misdeclared, a field that is missing, and
    too many relations. -/
structure OfPaths (P : Error → Prop) : Prop where
  misdeclared : ∀ e, Catalog.Misdeclared e → P e
  missing : ∀ entity field path, P (.fieldNotFound entity field path)
  tooDeep : ∀ path maxDepth, P (.tooDeep path maxDepth)

/-- Whether a path may go on inside a column: along the keys of a JSON column, or to one language of a
    translated one. -/
def goesInside (f : Field) (rest : List String) : Bool := f.isJson || (f.translated && rest.length == 1)

/-- What is inside a column can be written exactly if a path may go on there. -/
theorem innerExpr_eq (ctx : Context) (entity path : String) (f : Field) (table : Option String)
    (rest : List String) :
    ∃ e, innerExpr ctx entity path f table rest =
      Dialect.resolve ctx.settings ctx.dialect >>= fun _ =>
        if goesInside f rest then .ok e else .error (.fieldNotFound entity (Path.dotted rest) path) := by
  simp only [innerExpr, Context.column, bind_assoc, goesInside]
  by_cases json : f.isJson = true
  · simp only [json, if_true, Bool.true_or]
    exact ⟨_, rfl⟩
  · have json : f.isJson = false := by simpa using json
    simp only [json, Bool.false_eq_true, if_false, Bool.false_or]
    cases translated : f.translated with
    | false => exact ⟨.column ⟨table, f.column, false⟩, rfl⟩
    | true =>
      rcases rest with _ | ⟨language, _ | ⟨next, more⟩⟩
      · exact ⟨.column ⟨table, f.column, false⟩, rfl⟩
      · exact ⟨.language ⟨table, f.column, false⟩ language, rfl⟩
      · exact ⟨.column ⟨table, f.column, false⟩, rfl⟩

/-- A dialect that is not known is no matter for a report. -/
theorem fails_dialect (settings : Settings) (requested : Option String) :
    Fails (·.kind? = none) (Dialect.resolve settings requested) := by
  unfold Dialect.resolve Dialect.ofDetail
  split
  · split
    · exact .ok _
    · exact .error rfl
  all_goals exact .error rfl

theorem fails_quotable (d : Detail) : Fails (·.kind? = none) d.quotable := by
  cases d with
  | text s => exact .ok s
  | _ => exact .error rfl

section Columns

variable {P : Error → Prop} {ctx : Context}

theorem fails_convert (values : OfValues P) (kind : Option ColumnKind) (filter raw : String) :
    Fails P (convert kind filter raw) := by
  cases kind with
  | none => exact .error (values.unsupported filter raw)
  | some kind =>
    rw [convert]
    cases Value.ofText kind raw with
    | error fault => exact .error (values.inconvertible filter raw kind fault)
    | ok v => exact .ok v

theorem fails_test (values : OfValues P) (flt : Filter) (kind : Option ColumnKind) :
    Fails P (flt.test kind) := by
  unfold Filter.test Operation.test
  split
  · exact .ok _
  · split
    · exact .ok _
    · split
      · exact (Fails.mapM fun raw _ => fails_convert values kind flt.name raw).map _
      · exact (fails_convert values kind flt.name flt.value).map _

theorem fails_ownLanguage (read : ctx.localizer.ownLanguage.isTrue = true) :
    Fails P ctx.localizer.ownLanguage.quotable := by
  unfold Localizer.ownLanguage at read ⊢
  cases language : ctx.localizer.language with
  | none => simp [language, Detail.ofText?, Detail.isTrue] at read
  | some code => exact .ok code

/-- A language that is read can be quoted, if the one that is asked for can: the context's own is a text. -/
theorem fails_languageOr {language : Detail} (asked : language.isTrue = true → Fails P language.quotable)
    (read : (ctx.localizer.languageOr language).isTrue = true) :
    Fails P (ctx.localizer.languageOr language).quotable := by
  unfold Localizer.languageOr at read ⊢
  split
  case isTrue none =>
    rw [if_pos none] at read
    exact fails_ownLanguage read
  case isFalse some =>
    rw [if_neg some] at read
    exact asked read

variable (known : Fails P (Dialect.resolve ctx.settings ctx.dialect))

include known

theorem fails_column (f : Field) (table : Option String) : Fails P (ctx.localizer.column f table) :=
  Fails.bind known fun _ _ => .ok _

theorem fails_expr {language : Detail} (asked : language.isTrue = true → Fails P language.quotable) (f : Field)
    (table : Option String) : Fails P (ctx.localizer.expr f table language) := by
  refine (fails_column known f table).bind fun c _ => ?_
  dsimp only
  split
  case isTrue read =>
    simp only [Bool.and_eq_true] at read
    exact (fails_languageOr asked read.1.2).bind fun _ _ => .ok _
  case isFalse => exact .ok _

theorem fails_sortExpr (default : Fails P ctx.settings.defaultLanguage.quotable) (f : Field)
    (table : Option String) : Fails P (ctx.localizer.sortExpr f table .null) := by
  refine fails_expr known ?_ f table
  intro read
  split
  case isTrue => exact default
  case isFalse single =>
    rw [if_neg single] at read
    exact fails_ownLanguage read

theorem fails_leafCondition (values : OfValues P) (flt : Filter) (f : Field) (table : Option String) :
    Fails P (leafCondition ctx flt f table) := by
  simp only [leafCondition]
  split
  · refine (fails_column known f table).bind fun c _ => ?_
    split
    · exact .ok _
    · split
      · exact .ok _
      · split
        · exact .ok _
        · exact .ok _
        · exact .ok _
        · split <;> exact .ok _
        · split <;> exact .ok _
        · exact .error (values.acrossLanguages _ _)
  · exact (fails_expr known (fun read => by cases read) f table).bind fun _ _ =>
      (fails_test values flt _).bind fun _ _ => .ok _

theorem fails_innerExpr {entity path : String} {rest : List String}
    (missing : P (.fieldNotFound entity (Path.dotted rest) path)) (f : Field) (table : Option String) :
    Fails P (innerExpr ctx entity path f table rest) := by
  obtain ⟨e, same⟩ := innerExpr_eq ctx entity path f table rest
  rw [same]
  refine Fails.bind known fun _ _ => ?_
  split
  · exact .ok e
  · exact .error missing

end Columns

/-- A depth is refused if it exceeds the limit. -/
theorem checkDepth_eq {ctx : Context} {limit : Int} (limited : ctx.maxDepth = .int limit) (depth : Nat)
    (path : String) :
    ctx.checkDepth depth path = if limit < depth then .error (.tooDeep path ctx.maxDepth) else .ok () := by
  by_cases beyond : limit < (depth : Int) <;>
    simp [Context.checkDepth, Depth.check, Detail.exceeds, limited, beyond, bind, Except.bind, pure, Except.pure,
      throw, throwThe, MonadExceptOf.throw]

theorem fails_checkDepth {P : Error → Prop} (paths : OfPaths P) {ctx : Context} {limit : Int}
    (limited : ctx.maxDepth = .int limit) (depth : Nat) (path : String) : Fails P (ctx.checkDepth depth path) := by
  rw [checkDepth_eq limited]
  split
  · exact .error (paths.tooDeep path _)
  · exact .ok ()

theorem fails_field {P : Error → Prop} (paths : OfPaths P) (schema : Schema) (name path : String) :
    Fails P (schema.field name path) := by
  unfold Schema.field
  split
  · exact .ok _
  · exact .error (paths.missing _ _ _)

/-! ## Relations -/

/-- Settings that name columns by texts. -/
structure NamesColumns (settings : Settings) : Prop where
  key : ∃ s, settings.primaryKey = .text s
  foreignKey : ∃ s, settings.foreignKeySuffix = .text s
  type : ∃ s, settings.polymorphicTypeSuffix = .text s

/-- A relation can be written as a subselect if the settings and its declaration name what that needs. -/
theorem exists_frames {settings : Settings} {dialect : Option String} {d : Dialect} {c : Catalog} {f : Field}
    (names : NamesColumns settings) (known : Dialect.resolve settings dialect = .ok d)
    (wellFormed : f.WellFormed c) (relation : f.isRelation = true) (outer related : String) :
    ∃ frames, relationFrames settings dialect f outer related = .ok frames := by
  obtain ⟨⟨key, isKey⟩, ⟨suffix, isSuffix⟩, ⟨type, isType⟩⟩ := names
  have named : settings.keyName = .ok key := quotable_eq_ok.mpr isKey
  have keyed : ∀ stem, settings.keyColumn (.text stem) = .ok (stem ++ suffix) :=
    fun stem => append_eq_ok.mpr ⟨stem, suffix, rfl, isSuffix, rfl⟩
  have typed : ∀ stem, settings.typeColumn (.text stem) = .ok (stem ++ type) :=
    fun stem => append_eq_ok.mpr ⟨stem, type, rfl, isType, rfl⟩
  unfold relationFrames
  cases kind : f.relation with
  | none => simp [Field.isRelation, kind] at relation
  | direct =>
    simp only [known, named]
    exact ⟨_, rfl⟩
  | manyToMany =>
    obtain ⟨table, through, _⟩ := exists_nonEmpty (wellFormed.manyToMany kind).1
    simp only [known, keyed, through]
    exact ⟨_, rfl⟩
  | polymorphic =>
    obtain ⟨stem, owned, _⟩ := exists_nonEmpty (wellFormed.polymorphic kind).1
    simp only [known, named, owned, Detail.ofText?, Option.elim, keyed, typed]
    exact ⟨_, rfl⟩

theorem fails_relationFrames {P : Error → Prop} {settings : Settings} {dialect : Option String} {c : Catalog}
    {f : Field} (names : NamesColumns settings) (known : Fails P (Dialect.resolve settings dialect))
    (wellFormed : f.WellFormed c) (relation : f.isRelation = true) (outer related : String) :
    Fails P (relationFrames settings dialect f outer related) := by
  cases resolved : Dialect.resolve settings dialect with
  | ok d =>
    obtain ⟨frames, framed⟩ := exists_frames names resolved wellFormed relation outer related
    exact .of_ok framed
  | error e =>
    obtain ⟨suffix, isSuffix⟩ := names.foreignKey
    have outerColumn : settings.keyColumn outer = .ok (outer ++ suffix) :=
      append_eq_ok.mpr ⟨outer, suffix, rfl, isSuffix, rfl⟩
    unfold relationFrames
    cases kind : f.relation with
    | none => simp [Field.isRelation, kind] at relation
    | direct | polymorphic =>
      rw [resolved]
      exact .error (known e resolved)
    | manyToMany =>
      simp only [outerColumn, resolved]
      exact .error (known e resolved)

end RowQuery.Compile

/-! ## Joins -/

namespace RowQuery.Join

open RowQuery.Schema RowQuery.Sql RowQuery.Compile

namespace Registry

/-- A registry that is filled by registering configurations. -/
inductive Built : Registry → Prop where
  | empty (dialect : Option String) : Built { dialect }
  | register {r r' : Registry} {path : String} {config : Config} (built : Built r)
      (registered : r.register path config = .ok r') : Built r'

/-- What is registered is valid. -/
theorem Built.valid {r : Registry} (built : r.Built) {path : String} {config : Config}
    (known : r.get? path = some config) : config.validate "" = .ok () := by
  induction built with
  | empty => cases known
  | register built registered ih =>
    obtain ⟨_, valid, same⟩ := bind_eq_ok.mp registered
    cases same
    rw [get?_put] at known
    split at known
    · cases known
      exact Config.validate_eq_ok.mpr (Config.validate_eq_ok.mp valid)
    · exact ih known

theorem exists_clause {settings : Settings} {key : String} (named : settings.keyName = .ok key) (base : String)
    (config : Config) : ∃ clause type, Claused settings base config clause type := by
  cases plan : config.plan with
  | direct => exact ⟨_, _, .direct plan⟩
  | pivot => exact ⟨_, _, .pivot plan named⟩
  | polymorphic => exact ⟨_, _, .polymorphic plan named⟩

/-- A valid configuration can be joined once the dialect is known and the key has a name. -/
theorem exists_join {settings : Settings} {key : String} {r : Registry} {d : Dialect} {config : Config}
    (named : settings.keyName = .ok key) (known : Dialect.resolve settings r.dialect = .ok d)
    (valid : config.validate "" = .ok ()) (base : String) (inlined : Bool) :
    ∃ x, r.join settings base config inlined = .ok x := by
  obtain ⟨clause, type, made⟩ := exists_clause named base config
  exact ⟨_, join_eq_ok.mpr ⟨valid, ⟨d, known⟩, clause, type, made, rfl⟩⟩

/-- The join of a configuration fails as one of its stages does. -/
theorem fails_join {P : Error → Prop} {settings : Settings} {r : Registry} {config : Config}
    (valid : Fails P (config.validate "")) (known : Fails P (Dialect.resolve settings r.dialect))
    (named : Fails P settings.keyName) (base : String) (inlined : Bool) :
    Fails P (r.join settings base config inlined) := by
  refine valid.bind fun _ _ => known.bind fun _ _ => Fails.bind ?_ fun _ _ => .ok _
  unfold clause
  split
  · exact .ok _
  · exact named.bind fun _ _ => .ok _
  · exact named.bind fun _ _ => .ok _

/-- Registered paths are found. -/
theorem fails_joins {P : Error → Prop} {settings : Settings} {r : Registry} {base : String} {paths : List String}
    {inlined : Bool} (each : ∀ path ∈ paths, ∃ config, r.get? path = some config ∧
      Fails P (r.join settings base config inlined)) : Fails P (r.joins settings base paths inlined) := by
  refine (Fails.mapM fun path member => ?_).bind fun _ _ => .ok _
  obtain ⟨config, registered, joins⟩ := each path member
  rw [require, registered]
  exact joins

end Registry

namespace Plan

/-- The group of keys that a plan needs. -/
def group : Plan → KeyGroup
  | .direct _ _ => .direct
  | .pivot _ _ _ => .pivot
  | .polymorphic _ _ _ => .polymorphic

/-- The keys that a plan is made of. -/
def keys : Plan → Keys
  | .direct localKey foreignKey => { localKey := some localKey, foreignKey := some foreignKey }
  | .pivot table localKey foreignKey =>
    { pivotTable := some table, pivotLocalKey := some localKey, pivotForeignKey := some foreignKey }
  | .polymorphic id type value =>
    { polymorphicId := some id, polymorphicType := some type, polymorphicValue := some value }

/-- The texts of these keys. -/
def texts : Plan → List String
  | .direct localKey foreignKey => [localKey, foreignKey]
  | .pivot table localKey foreignKey => [table, localKey, foreignKey]
  | .polymorphic id type value => [id, type, value]

end Plan

namespace Config

/-- What can be wrong with a configuration. -/
inductive Invalid : Error → Prop where
  | withoutTable (path : String) : Invalid (.joinWithoutTable path)
  | missingKeys (type : RelationType) (path : String) (keys : List JoinKey) :
      Invalid (.missingKeys type path keys)
  | strayKeys (type : RelationType) (path : String) (keys : List JoinKey) : Invalid (.strayKeys type path keys)

theorem Invalid.kind?_eq {e : Error} (wrong : Invalid e) : e.kind? = some .invalidJoin := by
  cases wrong <;> rfl

theorem fails_validate (config : Config) (path : String) : Fails Invalid (config.validate path) := by
  unfold validate
  split
  · exact .error (.withoutTable path)
  · split
    · exact .error (.missingKeys _ path _)
    · split
      · exact .error (.strayKeys _ path _)
      · exact .ok ()

theorem append_ne_empty {s : String} (there : s ≠ "") (t : String) : s ++ t ≠ "" := by
  simp [String.append_eq_empty_iff, there]

theorem foreignColumn_ne_empty {settings : Settings} {f : Field}
    (named : f.name ≠ "" ∨ settings.foreignKeySuffix.plain ≠ "") : f.foreignColumn settings ≠ "" := by
  unfold Field.foreignColumn
  cases declared : nonEmpty? f.foreignKey with
  | none =>
    intro empty
    obtain ⟨noName, noSuffix⟩ := String.append_eq_empty_iff.mp empty
    exact named.elim (· noName) (· noSuffix)
  | some column => simpa using (Option.filter_eq_some_iff.mp declared).2

theorem assemble_eq {settings : Settings} {requested : Option JoinType} {joinType : JoinType}
    (setting : requested.elim settings.joinType .ok = .ok joinType) (type : RelationType) (table : String)
    (keys : Keys) :
    assemble settings type (some table) requested (.ok keys) = .ok { type, table, joinType, keys } := by
  cases requested with
  | none =>
    have setting : settings.joinType = .ok joinType := setting
    simp only [assemble, setting]
    rfl
  | some given =>
    cases setting
    rfl

/-- A configuration with the keys of a plan is valid if none of its texts is empty. -/
theorem validate_of_plan {config : Config} (plan : Plan) (group : config.group = plan.group)
    (keys : config.keys = plan.keys) (table : config.table ≠ "") (texts : ∀ t ∈ plan.texts, t ≠ "") :
    config.validate "" = .ok () := by
  refine validate_eq_ok.mpr ⟨table, ?_, ?_⟩
  · unfold missing
    rw [group, keys]
    cases plan <;>
      simp_all [Plan.group, Plan.keys, Plan.texts, KeyGroup.keys, Keys.has, Keys.get, nonEmpty?, Option.filter]
  · unfold stray
    rw [group, keys]
    cases plan <;>
      simp [Plan.group, Plan.keys, KeyGroup.all, KeyGroup.keys, Keys.has, Keys.get, nonEmpty?]

/-- A relation has a configuration by its own declaration, which is valid if all names that it is made of
    are there. -/
theorem exists_ofField {settings : Settings} {joinType : JoinType} {c : Catalog} {f : Field}
    (names : NamesColumns settings) (requested : Option JoinType)
    (setting : requested.elim settings.joinType .ok = .ok joinType)
    (wellFormed : f.WellFormed c) (relation : f.isRelation = true) (base : String) :
    ∃ config, ofField settings f base requested = .ok config ∧
      (f.name ≠ "" ∨ settings.foreignKeySuffix.plain ≠ "" → base ≠ "" → settings.primaryKey ≠ .text "" →
        f.targetTable ≠ some "" → config.validate "" = .ok ()) := by
  obtain ⟨⟨key, isKey⟩, ⟨suffix, isSuffix⟩, ⟨type, isType⟩⟩ := names
  obtain ⟨table, isTable⟩ := Option.isSome_iff_exists.mp (wellFormed.targetTable.mp relation)
  have keyed : ∀ stem, settings.keyColumn (.text stem) = .ok (stem ++ suffix) :=
    fun stem => append_eq_ok.mpr ⟨stem, suffix, rfl, isSuffix, rfl⟩
  have typed : ∀ stem, settings.typeColumn (.text stem) = .ok (stem ++ type) :=
    fun stem => append_eq_ok.mpr ⟨stem, type, rfl, isType, rfl⟩
  have hasTable : f.targetTable ≠ some "" → table ≠ "" := by simp [isTable]
  unfold ofField
  cases kind : f.relation with
  | none => simp [Field.isRelation, kind] at relation
  | direct =>
    refine ⟨_, by
      rw [isTable, isKey]
      exact assemble_eq setting _ _ _, ?_⟩
    intro named _ hasKey there
    have localKey := foreignColumn_ne_empty named
    have foreignKey : key ≠ "" := by simpa [isKey] using hasKey
    refine validate_of_plan (.direct (f.foreignColumn settings) key) ?_ rfl (hasTable there) ?_
    · cases f.isList <;> rfl
    · simp [Plan.texts, localKey, foreignKey]
  | manyToMany =>
    obtain ⟨pivot, through, isPivot⟩ := exists_nonEmpty (wellFormed.manyToMany kind).1
    refine ⟨_, by
      simp only [isTable, Detail.ofText?, Option.elim, keyed]
      exact assemble_eq setting _ _ _, ?_⟩
    intro _ based _ there
    have toBase := append_ne_empty based suffix
    have toRelated := append_ne_empty (hasTable there) suffix
    refine validate_of_plan (.pivot pivot (base ++ suffix) (table ++ suffix)) rfl ?_ (hasTable there) ?_
    · rw [through]
      rfl
    · simp only [Plan.texts, List.forall_mem_cons]
      exact ⟨isPivot, toBase, toRelated, by simp⟩
  | polymorphic =>
    obtain ⟨stem, owned, isStem⟩ := exists_nonEmpty (wellFormed.polymorphic kind).1
    refine ⟨_, by
      simp only [isTable, owned, Detail.ofText?, Option.elim, keyed, typed]
      exact assemble_eq setting _ _ _, ?_⟩
    intro _ based _ there
    have idColumn := append_ne_empty isStem suffix
    have typeColumn := append_ne_empty isStem type
    refine validate_of_plan (.polymorphic (stem ++ suffix) (stem ++ type) base) rfl rfl (hasTable there) ?_
    simp only [Plan.texts, List.forall_mem_cons]
    exact ⟨idColumn, typeColumn, based, by simp⟩

end Config

end RowQuery.Join

namespace RowQuery.Compile

open RowQuery.Schema RowQuery.Sql RowQuery.Join

variable {ctx : Context}

theorem Context.built_sortRegistry (built : ∀ r ∈ ctx.registry, r.Built) : ctx.sortRegistry.Built := by
  unfold Context.sortRegistry
  split
  case h_1 r registry =>
    split
    · exact .empty ctx.dialect
    · exact built r registry
  case h_2 => exact .empty ctx.dialect

/-- A relation that a sort goes through has a configuration: the registered one is valid, its own if all
    names that it is made of are there. -/
theorem exists_sortConfig {joinType : JoinType} {c : Catalog} {f : Field} (built : ∀ r ∈ ctx.registry, r.Built)
    (names : NamesColumns ctx.settings) (setting : ctx.settings.joinType = .ok joinType)
    (wellFormed : f.WellFormed c) (relation : f.isRelation = true) (base path : String) :
    ∃ config, sortConfig ctx base path f = .ok config ∧
      (f.name ≠ "" → base ≠ "" → ctx.settings.primaryKey ≠ .text "" → f.targetTable ≠ some "" →
        config.validate "" = .ok ()) := by
  unfold sortConfig
  cases registered : ctx.sortRegistry.get? path with
  | some config => exact ⟨config, rfl, fun _ _ _ _ => (Context.built_sortRegistry built).valid registered⟩
  | none =>
    obtain ⟨config, own, valid⟩ := Config.exists_ofField names none setting wellFormed relation base
    exact ⟨config, own, fun named => valid (.inl named)⟩

theorem exists_sortClause {d : Dialect} {config : Config} (names : NamesColumns ctx.settings)
    (known : Dialect.resolve ctx.settings ctx.sortRegistry.dialect = .ok d)
    (valid : config.validate "" = .ok ()) (mode : SortMode) (base path : String) :
    ∃ own, sortClause ctx mode base path config = .ok own := by
  obtain ⟨key, isKey⟩ := names.key
  unfold sortClause
  split
  · exact ⟨_, rfl⟩
  · obtain ⟨x, joined⟩ := Registry.exists_join (quotable_eq_ok.mpr isKey) known valid base true
    rw [joined]
    exact ⟨_, rfl⟩

end RowQuery.Compile
