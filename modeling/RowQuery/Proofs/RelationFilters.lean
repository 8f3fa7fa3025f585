import RowQuery.Proofs.Semantics
import RowQuery.Proofs.StandardForm

/-!
# What filters behind relations mean

A filter's path crosses relations and ends at a field. Without registered joins its condition is a
nest of subselects, and it holds at a row exactly if the relations lead from this row to another at
which the field passes the filter.
-/

namespace RowQuery

open RowQuery.Sql

variable {δ : Type}

/-! ## What a filter asks of a value -/

/-- The words that ask for a null. -/
def nullWords : List String := ["NULL", "null", "nil"]

/-- Whether a value is there and compares with what a raw value is converted to. -/
def Filter.Compares (E : Engine δ) (flt : Filter) (kind : Option ColumnKind) (op : Comparison)
    (x : Option δ) (raw : String) : Prop :=
  ∃ y v, x = some y ∧ convert kind flt.name raw = .ok v ∧ E.compare op y v = true

/-- Whether a value passes a filter. Equality and its opposite ask with a null word whether the value is
    null, and the two operations on lists ask for equality with an element. -/
def Filter.Accepts (E : Engine δ) (flt : Filter) (kind : Option ColumnKind) (x : Option δ) : Prop :=
  match flt.operation with
  | .equal => if flt.value ∈ nullWords then x = none else flt.Compares E kind .equal x flt.value
  | .notEqual => if flt.value ∈ nullWords then x ≠ none else flt.Compares E kind .notEqual x flt.value
  | .less => flt.Compares E kind .less x flt.value
  | .lessEqual => flt.Compares E kind .lessEqual x flt.value
  | .greater => flt.Compares E kind .greater x flt.value
  | .greaterEqual => flt.Compares E kind .greaterEqual x flt.value
  | .like => flt.Compares E kind .like x flt.value
  | .oneOf => ∃ raw, raw.toList ∈ flt.value.toList.splitOn '|' ∧ flt.Compares E kind .equal x raw
  | .oneOfAlt => ∃ raw, raw.toList ∈ flt.value.toList.splitOn '*' ∧ flt.Compares E kind .equal x raw

/-- Whether some text that a value has in a language matches a pattern. -/
def Matches (E : Engine δ) (x : Option δ) (pattern : String) : Prop :=
  ∃ y, x = some y ∧ E.someLanguage y pattern = true

/-- Whether the texts that a value has in all languages pass a filter. A value that only has to match is
    looked for as it is, one that has to be equal with its wildcards escaped. No order is asked for. -/
def Filter.AcceptsAcross (E : Engine δ) (flt : Filter) (x : Option δ) : Prop :=
  match flt.operation with
  | .equal => if flt.value ∈ nullWords then x = none else Matches E x (escapeLike flt.value)
  | .notEqual => if flt.value ∈ nullWords then x ≠ none else ¬ Matches E x (escapeLike flt.value)
  | .like => Matches E x flt.value
  | .oneOf => ∃ raw, raw.toList ∈ flt.value.toList.splitOn '|' ∧ Matches E x (escapeLike raw)
  | .oneOfAlt => ∃ raw, raw.toList ∈ flt.value.toList.splitOn '*' ∧ Matches E x (escapeLike raw)
  | .less | .lessEqual | .greater | .greaterEqual => False

theorem isNullWord_iff {value : String} : isNullWord value = true ↔ value ∈ nullWords := by
  simp [isNullWord, nullWords, or_assoc]

theorem Operation.eq_of_isList {op : Operation} (list : op.isList = true) : op = .oneOf ∨ op = .oneOfAlt := by
  cases op with
  | oneOf => exact .inl rfl
  | oneOfAlt => exact .inr rfl
  | _ => cases list

section Accepts

variable {E : Engine δ} {flt : Filter} {kind : Option ColumnKind} {x : Option δ}

theorem Filter.accepts_of_isList (list : flt.operation.isList = true) :
    flt.Accepts E kind x ↔ ∃ raw ∈ flt.rawValues, flt.Compares E kind .equal x raw := by
  unfold Filter.Accepts Filter.rawValues
  rcases Operation.eq_of_isList list with operation | operation
  · simp only [operation, @Operation.mem_elements .oneOf _ rfl]
  · simp only [operation, @Operation.mem_elements .oneOfAlt _ rfl]

theorem Filter.acceptsAcross_of_isList (list : flt.operation.isList = true) :
    flt.AcceptsAcross E x ↔ ∃ raw ∈ flt.rawValues, Matches E x (escapeLike raw) := by
  unfold Filter.AcceptsAcross Filter.rawValues
  rcases Operation.eq_of_isList list with operation | operation
  · simp only [operation, @Operation.mem_elements .oneOf _ rfl]
  · simp only [operation, @Operation.mem_elements .oneOfAlt _ rfl]

theorem Filter.accepts_of_single (bound : flt.isNullTest = false) (single : flt.operation.isList = false) :
    flt.Accepts E kind x ↔ flt.Compares E kind flt.operation.comparison x flt.value := by
  have words : flt.operation = .equal ∨ flt.operation = .notEqual → flt.value ∉ nullWords := by
    intro operation word
    rw [isNullTest_of_isNullWord operation (isNullWord_iff.mpr word)] at bound
    cases bound
  unfold Filter.Accepts
  cases operation : flt.operation <;>
    simp_all [Operation.comparison, Operation.isList, Operation.separator?]

/-- The test of a filter says of a value whether it passes. -/
theorem Filter.truth_test (E : Engine δ) {t : Test} (ok : flt.test kind = .ok t) (x : Option δ) :
    t.truth E x = some true ↔ flt.Accepts E kind x := by
  cases tested_of_test ok with
  | isNull operation word => simp [Test.truth, Filter.Accepts, operation, isNullWord_iff.mp word]
  | isNotNull operation word =>
    simp [Test.truth, Filter.Accepts, operation, isNullWord_iff.mp word, Option.isSome_iff_ne_none]
  | oneOf list read =>
    rw [Filter.accepts_of_isList list]
    simp only [Test.truth, Truth.any_eq_true, List.mem_map, Option.map_eq_some_iff]
    constructor
    · rintro ⟨v, member, y, here, holds⟩
      obtain ⟨raw, inRaw, converted⟩ := exists_left_of_forall₂ read member
      exact ⟨raw, inRaw, y, v, here, converted, holds⟩
    · rintro ⟨raw, inRaw, y, v, here, converted, holds⟩
      obtain ⟨w, member, same⟩ := exists_left_of_forall₂ (List.Forall₂.flip (R := flip _) read) inRaw
      cases converted.symm.trans same
      exact ⟨v, member, y, here, holds⟩
  | compare bound single read => simp [Test.truth, Filter.accepts_of_single bound single, Filter.Compares, read]

end Accepts

namespace Compile

open RowQuery.Schema RowQuery.Join

/-! ## Routes -/

/-- A relation that a path crosses, with the table it starts from and the table it leads to. -/
structure Crossing where
  field : Field
  outer : String
  related : String

/-- Where a path leads: the relations on the way, the field at its end, and keys inside of this. -/
structure Route where
  crossings : List Crossing
  field : Field
  keys : List String

/-- The route of the segments `head` and `rest` from an entity, which goes by a table. -/
def route (ctx : Context) : (rest : List String) → (head : String) → Schema → String → Option Route
  | [], head, schema, _ =>
    (schema.get? head).bind fun f => if f.isRelation then none else some ⟨[], f, []⟩
  | next :: more, head, schema, table =>
    (schema.get? head).bind fun f =>
      if f.isRelation then
        match (ctx.related f).result with
        | .ok related => (route ctx more next related related.table).map fun r =>
            { r with crossings := ⟨f, table, related.table⟩ :: r.crossings }
        | .error _ => none
      else some ⟨[], f, next :: more⟩

/-- Whether a relation links a row of its outer table to a row of its related one. -/
def Linked (E : Engine δ) (db : Database δ) (settings : Settings) (x : Crossing) (s t : Row δ) : Prop :=
  let key := settings.primaryKey.plain
  let suffix := settings.foreignKeySuffix.plain
  match x.field.relation with
  | .direct => E.Same (s (x.field.foreignColumn settings)) (t key)
  | .manyToMany => ∃ pivot, x.field.manyToMany = some pivot ∧ ∃ p ∈ db pivot,
      E.Same (p (x.outer ++ suffix)) (s key) ∧ E.Same (p (x.related ++ suffix)) (t key)
  | .polymorphic => ∃ stem, x.field.polymorphic = some stem ∧
      E.Same (t (stem ++ suffix)) (s key) ∧
      E.Same (t (stem ++ settings.polymorphicTypeSuffix.plain)) (some (E.text x.outer))
  | .none => False

/-- Whether relations lead from one row to another, each to a row of its related table. -/
def Leads (E : Engine δ) (db : Database δ) (settings : Settings) :
    List Crossing → Row δ → Row δ → Prop
  | [], s, t => s = t
  | x :: xs, s, t => ∃ u ∈ db x.related, Linked E db settings x s u ∧ Leads E db settings xs u t

/-- The language that a field is read in, if it is read in one. -/
def Context.readLanguage? (ctx : Context) (f : Field) : Option String :=
  match ctx.language with
  | some code =>
    if f.translated && code != "" && Detail.text code != ctx.settings.allLanguages then some code
    else none
  | none => none

/-- The value that is compared at the end of a route. -/
def Route.value (E : Engine δ) (ctx : Context) (r : Route) (row : Row δ) : Option δ :=
  if r.keys.isEmpty then
    match ctx.readLanguage? r.field with
    | some code => (row r.field.column).bind (E.language · code)
    | none => row r.field.column
  else if r.field.isJson then (row r.field.column).bind (E.jsonText · (Path.dotted r.keys))
  else (row r.field.column).bind (E.language · (Path.dotted r.keys))

/-- The kind that values are converted to at the end of a route. -/
def Route.kind (r : Route) : Option ColumnKind :=
  if r.keys.isEmpty && !r.field.translated then r.field.kind else some .string

/-- Whether a row at the end of a route passes a filter. -/
def Route.Passes (E : Engine δ) (ctx : Context) (flt : Filter) (r : Route) (row : Row δ) : Prop :=
  if r.keys.isEmpty && ctx.acrossLanguages r.field then flt.AcceptsAcross E (row r.field.column)
  else flt.Accepts E r.kind (r.value E ctx row)

/-! ## One relation -/

theorem quotable_eq_ok {d : Detail} {s : String} : d.quotable = .ok s ↔ d = .text s := by
  cases d <;> simp [Detail.quotable, Detail.textWith]

theorem ofText?_eq_text {t : Option String} {s : String} : Detail.ofText? t = .text s ↔ t = some s := by
  cases t <;> simp [Detail.ofText?]

theorem append_eq_ok {d e : Detail} {s : String} :
    d.append e = .ok s ↔ ∃ a b, d = .text a ∧ e = .text b ∧ s = a ++ b := by
  cases d <;> cases e <;> simp [Detail.append, eq_comm]

theorem value_of_head (table name : String) (bare : Bool) (row : Row δ) (scopes : Scopes δ) :
    Column.value ((table, row) :: scopes) ⟨some table, name, bare⟩ = row name := by
  simp [Column.value]

theorem value_of_innermost (table name : String) (bare : Bool) (row : Row δ) (scopes : Scopes δ) :
    Column.value ((table, row) :: scopes) ⟨none, name, bare⟩ = row name := by
  simp [Column.value]

theorem value_of_enclosing {table other : String} (different : table ≠ other) (name : String)
    (bare : Bool) (row : Row δ) (scopes : Scopes δ) :
    Column.value ((other, row) :: scopes) ⟨some table, name, bare⟩ =
      Column.value scopes ⟨some table, name, bare⟩ := by
  simp [Column.value, different.symm]

theorem nest_directFrames (outer foreignKey related key : String) (p : Predicate) :
    Frame.nest (directFrames outer foreignKey related key) p =
      .inSelect ⟨some outer, foreignKey, false⟩ ⟨some related, key, false⟩ related p := rfl

theorem nest_pivotFrames (outer toOuter pivot toRelated related key : String) (p : Predicate) :
    Frame.nest (pivotFrames outer toOuter pivot toRelated related key) p =
      .inSelect ⟨some outer, key, true⟩ ⟨none, toOuter, false⟩ pivot
        (.inSelect ⟨none, toRelated, false⟩ ⟨none, key, true⟩ related p) := rfl

theorem nest_polymorphicFrames (outer related key idColumn typeColumn : String) (p : Predicate) :
    Frame.nest (polymorphicFrames outer related key idColumn typeColumn) p =
      .inSelect ⟨some outer, key, false⟩ ⟨some related, idColumn, false⟩ related
        (.and (.and p (.sameColumn ⟨some related, idColumn, false⟩ ⟨some outer, key, false⟩))
          (.hasText ⟨some related, typeColumn, false⟩ outer)) := rfl

/-- The frames of a relation around a condition that speaks of the related row alone: it holds at a row
    exactly if the relation links this to a row at which the condition holds. -/
theorem holds_nest {E : Engine δ} {db : Database δ} {settings : Settings} {f : Field}
    {outer related : String} {frames : List Frame} {p : Predicate} {R : Row δ → Prop}
    (framed : Framed settings f outer related frames)
    (apart : f.relation = .polymorphic → outer ≠ related)
    (inner : ∀ t scopes, p.Holds E db ((related, t) :: scopes) ↔ R t) (s : Row δ) (scopes : Scopes δ) :
    (Frame.nest frames p).Holds E db ((outer, s) :: scopes) ↔
      ∃ t ∈ db related, Linked E db settings ⟨f, outer, related⟩ s t ∧ R t := by
  cases framed with
  | direct kind named =>
    rw [Settings.keyName, quotable_eq_ok] at named
    simp only [nest_directFrames, holds_inSelect, inner, value_of_head, Linked, kind, named, Detail.plain,
      and_comm (a := R _)]
  | @pivot toOuter toRelated pivot kind outerColumn relatedColumn through =>
    obtain ⟨_, suffix, same, isText, rfl⟩ := append_eq_ok.mp outerColumn
    cases same
    obtain ⟨_, suffix', same, isText', rfl⟩ := append_eq_ok.mp relatedColumn
    cases same
    cases isText.symm.trans isText'
    have table : f.manyToMany = some pivot := ofText?_eq_text.mp (quotable_eq_ok.mp through)
    simp only [nest_pivotFrames, holds_inSelect, inner, value_of_head, value_of_innermost, Linked, kind,
      table, isText, Detail.plain, Option.some.injEq, exists_eq_left']
    constructor
    · rintro ⟨row, inPivot, ⟨t, inRelated, holds, toRelated⟩, toOuter⟩
      exact ⟨t, inRelated, ⟨row, inPivot, toOuter.symm, toRelated⟩, holds⟩
    · rintro ⟨t, inRelated, ⟨row, inPivot, toOuter, toRelated⟩, holds⟩
      exact ⟨row, inPivot, ⟨t, inRelated, holds, toRelated⟩, toOuter.symm⟩
  | polymorphic kind named id type =>
    rw [Settings.keyName, quotable_eq_ok] at named
    obtain ⟨stem, suffix, declared, isText, rfl⟩ := append_eq_ok.mp id
    obtain ⟨stem', typeSuffix, declared', isText', rfl⟩ := append_eq_ok.mp type
    cases declared.symm.trans declared'
    have other := apart kind
    simp only [nest_polymorphicFrames, holds_inSelect, holds_and, holds_sameColumn, holds_hasText, inner,
      value_of_head, value_of_enclosing other, Linked, kind, ofText?_eq_text.mp declared, named, isText,
      isText', Detail.plain, Option.some.injEq, exists_eq_left']
    constructor
    · rintro ⟨t, inRelated, ⟨⟨holds, refers⟩, type⟩, _⟩
      exact ⟨t, inRelated, ⟨refers, type⟩, holds⟩
    · rintro ⟨t, inRelated, ⟨refers, type⟩, holds⟩
      exact ⟨t, inRelated, ⟨⟨holds, refers⟩, type⟩, refers.symm⟩

/-! ## The end of a route -/

/-- A field is read in the language of the context, or as it is. -/
theorem expr_eq_ok {ctx : Context} {f : Field} {table : Option String} {lhs : Expr}
    (ok : ctx.localizer.expr f table .null = .ok lhs) :
    lhs = match ctx.readLanguage? f with
      | some code => .language { table, name := f.column } code
      | none => .column { table, name := f.column } := by
  simp only [Localizer.expr, Localizer.column, bind_eq_ok] at ok
  obtain ⟨_, ⟨_, _, same⟩, ok⟩ := ok
  cases same
  cases language : ctx.language with
  | none =>
    simp [Localizer.languageOr, Localizer.ownLanguage, Context.localizer, language, Detail.ofText?,
      Detail.isTrue] at ok
    cases ok
    simp [Context.readLanguage?, language]
  | some code =>
    simp only [Localizer.languageOr, Localizer.ownLanguage, Context.localizer, language, Detail.ofText?,
      Option.elim, Localizer.isAll, Detail.isTrue, Detail.quotable, Detail.textWith, beq_self_eq_true,
      if_true] at ok
    simp only [Context.readLanguage?, language]
    split at ok
    case isTrue read =>
      cases ok
      rw [if_pos (by simpa using read)]
    case isFalse whole =>
      cases ok
      rw [if_neg (by simpa using whole)]

theorem innerExpr_eq_ok {ctx : Context} {entity path next : String} {f : Field} {table : Option String}
    {more : List String} {lhs : Expr}
    (ok : innerExpr ctx entity path f table (next :: more) = .ok lhs) :
    lhs = if f.isJson then .jsonText { table, name := f.column } (Path.dotted (next :: more))
      else .language { table, name := f.column } (Path.dotted (next :: more)) := by
  simp only [innerExpr, Context.column, bind_eq_ok] at ok
  obtain ⟨_, ⟨_, _, same⟩, ok⟩ := ok
  cases same
  split at ok
  case isTrue json =>
    cases ok
    simp [json]
  case isFalse notJson =>
    split at ok
    case h_1 language translated single =>
      cases ok
      cases single
      simp [notJson, Path.dotted]
    case h_2 => cases ok

theorem value_of_site (site : Site) (name : String) (row : Row δ) (scopes : Scopes δ) :
    Column.value ((site.table, row) :: scopes) ⟨site.qualifier, name, false⟩ = row name := by
  unfold Site.qualifier
  split
  · exact value_of_head _ _ _ _ _
  · exact value_of_innermost _ _ _ _ _

/-- The condition on a column holds at a row exactly if the row passes the filter. -/
theorem holds_leafCondition {E : Engine δ} {db : Database δ} {ctx : Context} {flt : Filter} {f : Field}
    {site : Site} {p : Predicate} (leaf : LeafCondition ctx flt f site.qualifier p)
    (row : Row δ) (scopes : Scopes δ) :
    p.Holds E db ((site.table, row) :: scopes) ↔ Route.Passes E ctx flt ⟨[], f, []⟩ row := by
  have here := value_of_site site f.column row scopes
  cases leaf with
  | @tested lhs t single expr test =>
    have value : lhs.value E ((site.table, row) :: scopes) = Route.value E ctx ⟨[], f, []⟩ row := by
      rw [expr_eq_ok expr]
      unfold Route.value
      cases ctx.readLanguage? f <;> simp [Expr.value, here]
    have kind : Route.kind ⟨[], f, []⟩ = if f.translated then some .string else f.kind := by
      cases translated : f.translated <;> simp [Route.kind, translated]
    unfold Route.Passes
    rw [if_neg (by simp [single]), ← value, kind]
    exact Filter.truth_test E test _
  | isNull across operation word =>
    simp [Predicate.Holds, Predicate.truth, Test.truth, Expr.value, here, Route.Passes, across,
      Filter.AcceptsAcross, operation, isNullWord_iff.mp word]
  | isNotNull across operation word =>
    simp [Predicate.Holds, Predicate.truth, Test.truth, Expr.value, here, Route.Passes, across,
      Filter.AcceptsAcross, operation, isNullWord_iff.mp word, Option.isSome_iff_ne_none]
  | like across operation =>
    simp [here, Route.Passes, across, Filter.AcceptsAcross, Matches, operation]
  | equal across operation value =>
    simp [here, Route.Passes, across, Filter.AcceptsAcross, Matches, operation, ← isNullWord_iff, value]
  | notEqual across operation value =>
    simp [here, Route.Passes, across, Filter.AcceptsAcross, Matches, operation, ← isNullWord_iff, value]
  | oneOf across list values =>
    rw [Route.Passes, if_pos (by simp [across]), Filter.acceptsAcross_of_isList list, values]
    simp only [holds_group, holds_anyOf, List.mem_cons, List.mem_map, exists_eq_or_imp,
      holds_someLanguage, here, Matches]
    constructor
    · rintro (found | ⟨_, ⟨raw, member, rfl⟩, holds⟩)
      · exact .inl found
      · obtain ⟨y, same, found⟩ := holds_someLanguage.mp holds
        exact .inr ⟨raw, member, y, here.symm.trans same, found⟩
    · rintro (found | ⟨raw, member, y, same, found⟩)
      · exact .inl found
      · exact .inr ⟨_, ⟨raw, member, rfl⟩, holds_someLanguage.mpr ⟨y, here.trans same, found⟩⟩

/-- The condition on what is inside of a column holds at a row exactly if the row passes the filter. -/
theorem holds_inner {E : Engine δ} {db : Database δ} {ctx : Context} {flt : Filter} {f : Field}
    {site : Site} {entity next : String} {more : List String} {lhs : Expr} {t : Test}
    (expr : innerExpr ctx entity flt.name f site.qualifier (next :: more) = .ok lhs)
    (test : flt.test (some .string) = .ok t) (row : Row δ) (scopes : Scopes δ) :
    (Predicate.test lhs t).Holds E db ((site.table, row) :: scopes) ↔
      Route.Passes E ctx flt ⟨[], f, next :: more⟩ row := by
  have here := value_of_site site f.column row scopes
  have value : lhs.value E ((site.table, row) :: scopes) =
      Route.value E ctx ⟨[], f, next :: more⟩ row := by
    rw [innerExpr_eq_ok expr]
    unfold Route.value
    cases f.isJson <;> simp [Expr.value, here]
  unfold Route.Passes
  rw [if_neg (by simp), ← value]
  exact Filter.truth_test E test _

/-! ## Whole paths -/

/-- Relations that lead to other tables where they are polymorphic. -/
def Apart (crossings : List Crossing) : Prop :=
  ∀ x ∈ crossings, x.field.relation = .polymorphic → x.outer ≠ x.related

/-- A filter's condition holds at a row exactly if its route leads from there to a row that passes. -/
theorem holds_narrowed (E : Engine δ) (db : Database δ) {ctx : Context} {flt : Filter}
    {rest : List String} {head : String} {site : Site} {n : Narrowing} (unregistered : ctx.registry = none)
    (walk : Narrowed ctx flt rest head site n) :
    ∃ r, route ctx rest head site.schema site.table = some r ∧ (Apart r.crossings →
      ∀ row scopes, n.condition.Holds E db ((site.table, row) :: scopes) ↔
        ∃ t, Leads E db ctx.settings r.crossings row t ∧ r.Passes E ctx flt t) := by
  induction walk with
  | @leaf head site f p shallow found column condition =>
    refine ⟨⟨[], f, []⟩, by simp [route, get?_of_field found, column], ?_⟩
    intro _ row scopes
    simpa [Leads] using holds_leafCondition (leafCondition_eq_ok condition) row scopes
  | @inner next head more site f lhs t shallow found column expr test =>
    refine ⟨⟨[], f, next :: more⟩, by simp [route, get?_of_field found, column], ?_⟩
    intro _ row scopes
    simpa [Leads] using holds_inner expr test row scopes
  | joined shallow found relation target registered rest ih =>
    simp [Context.registered?, unregistered] at registered
  | @nested next head more site f related frames n shallow found relation target _ rest framed ih =>
    obtain ⟨r, routed, inner⟩ := ih
    refine ⟨{ r with crossings := ⟨f, site.table, related.table⟩ :: r.crossings }, ?_, ?_⟩
    · have behind : route ctx more next related related.table = some r := routed
      simp [route, get?_of_field found, relation, target, behind]
    · intro apart row scopes
      have later : Apart r.crossings := fun x member => apart x (by simp [member])
      have linked := holds_nest (framed_of_relationFrames framed)
        (apart ⟨f, site.table, related.table⟩ (by simp)) (inner later) row scopes
      rw [linked]
      constructor
      · rintro ⟨u, inRelated, link, t, leads, passes⟩
        exact ⟨t, ⟨u, inRelated, link, leads⟩, passes⟩
      · rintro ⟨t, ⟨u, inRelated, link, leads⟩, passes⟩
        exact ⟨u, inRelated, link, t, leads, passes⟩

/-- Without registered joins, the condition of a filter is true at a row of the root table exactly if
    there are rows of the related tables, each linked to the one before by its relation, the last of
    which passes the filter. The text and the values of the condition are read as this condition. -/
theorem holds_compileFilters {ctx : Context} {filters : List Filter} {subject : Subject}
    {table : Option String} {part : FilterPart} (unregistered : ctx.registry = none)
    (ok : (compileFilters ctx filters subject table).result = .ok part)
    (E : Engine δ) (db : Database δ) :
    ∃ schema, ctx.schemaOf subject = .ok schema ∧ List.Forall₂ (fun flt p =>
      (PlainKey ctx.settings → read (p.text ctx.style) p.args = some p) ∧
      ∃ r, route ctx flt.path.rest flt.path.head schema (rootTable schema table) = some r ∧
        (Apart r.crossings → ∀ t₀, p.Holds E db [(rootTable schema table, t₀)] ↔
          ∃ t, Leads E db ctx.settings r.crossings t₀ t ∧ r.Passes E ctx flt t))
      filters part.conditions := by
  obtain ⟨schema, found, described, walks, rfl⟩ := compileFilters_eq_ok.mp ok
  refine ⟨schema, described, List.forall₂_map_right_iff.mpr (walks.imp ?_)⟩
  intro flt n walk
  have narrowed := narrowed_of_narrow walk
  obtain ⟨r, routed, holds⟩ := holds_narrowed E db unregistered narrowed
  refine ⟨?_, r, routed, ?_⟩
  · intro key
    exact read_text ctx.style (plain_narrowed key narrowed) (formed_narrowed narrowed).regular.standard
  · intro apart t₀
    exact holds apart t₀ []

/-- Values that are texts, and equal if they are the same. -/
def Books.engine : Engine String where
  equal x y := x == y
  equal_comm _ _ := BEq.comm
  text s := s
  compare op x v := match op, v with
    | .equal, .str s => x == s
    | .notEqual, .str s => x != s
    | _, _ => false
  jsonText _ _ := none
  language _ _ := none
  someLanguage _ _ := false

/-- A row of a book. -/
def Books.row : Row String
  | "ID" => some "1"
  | _ => none

/-- Bound values as they are, of which integers have an order. -/
def Books.values : Engine Value where
  equal x y := x == y
  equal_comm _ _ := BEq.comm
  text s := .str s
  compare op x v := match op, x, v with
    | .equal, x, v => x == v
    | .notEqual, x, v => x != v
    | .less, .int m, .int n => m < n
    | .lessEqual, .int m, .int n => m ≤ n
    | .greater, .int m, .int n => m > n
    | .greaterEqual, .int m, .int n => m ≥ n
    | _, _, _ => false
  jsonText _ _ := none
  language _ _ := none
  someLanguage _ _ := false

/-- A copy of a book. -/
def Books.copy : Schema :=
  { entity := "Copy", table := "copy"
    fields := [{ name := "Book", column := "Book", relation := .direct, target := some "Book"
                 targetTable := some "book" }] }

/-- Tags that notes can be written on, as on books. -/
def Books.topic : Schema := { Books.tag with fields := Books.notes :: Books.tag.fields }

def Books.catalog : Context :=
  { Books.context with
    schemaOf := fun
      | .entity "Copy" => .ok Books.copy
      | .entity "Tag" => .ok Books.topic
      | subject => Books.schemaOf subject }

/-- A copy of the book. -/
def Books.borrowable : Row Value
  | "BookID" => some (.int 1)
  | _ => none

/-- The book has one tag. There is a note of two stars on the tag, and one of a single star on a book that
    has the key of the tag. -/
def Books.tagged : Database Value
  | "copy" => [Books.borrowable]
  | "book" => [fun | "ID" => some (.int 1) | _ => none]
  | "book_tag" => [fun | "bookID" => some (.int 1) | "tagID" => some (.int 7) | _ => none]
  | "tag" => [fun | "ID" => some (.int 7) | _ => none]
  | "note" => [fun | "OwnerID" => some (.int 7) | "OwnerType" => some (.str "tag")
                   | "stars" => some (.int 2) | _ => none,
      fun | "OwnerID" => some (.int 7) | "OwnerType" => some (.str "book") | "stars" => some (.int 1) | _ => none]
  | _ => []

/-- A filter from a copy through its book and a tag of this to the stars of a note on the tag. -/
def Books.starred (operation : Operation) (value : String) : Filter :=
  ⟨"Book.Tags.Notes.Stars", operation, value⟩

/-- The note on the tag has less than three stars, and five or two of them. The one with less than two is
    not on the tag. -/
theorem holds_compileFilters_books :
    ∃ r, route Books.catalog ["Tags", "Notes", "Stars"] "Book" Books.copy "copy" = some r ∧
      r.crossings.map (·.field.relation) = [.direct, .manyToMany, .polymorphic] ∧
      (∃ t, Leads Books.values Books.tagged {} r.crossings Books.borrowable t ∧
        r.Passes Books.values Books.catalog (Books.starred .less "3") t) ∧
      (∃ t, Leads Books.values Books.tagged {} r.crossings Books.borrowable t ∧
        r.Passes Books.values Books.catalog (Books.starred .oneOf "5|2") t) ∧
      ¬ ∃ t, Leads Books.values Books.tagged {} r.crossings Books.borrowable t ∧
        r.Passes Books.values Books.catalog (Books.starred .less "2") t := by
  obtain ⟨r, routed, kinds, apart⟩ : ∃ r,
      route Books.catalog ["Tags", "Notes", "Stars"] "Book" Books.copy "copy" = some r ∧
      r.crossings.map (·.field.relation) = [.direct, .manyToMany, .polymorphic] ∧ Apart r.crossings :=
    ⟨_, rfl, rfl, by simp [Apart, Books.book, Books.notes, Books.topic, Books.note, Books.tag]⟩
  have ok : (compileFilters Books.catalog
      [Books.starred .less "3", Books.starred .oneOf "5|2", Books.starred .less "2"] (.entity "Copy")
      none).result = .ok _ := rfl
  obtain ⟨_, described, each⟩ := holds_compileFilters rfl ok Books.values Books.tagged
  cases described
  obtain ⟨⟨_, _, less, below⟩, each⟩ := List.forall₂_cons.mp each
  obtain ⟨⟨_, _, list, among⟩, each⟩ := List.forall₂_cons.mp each
  obtain ⟨⟨_, _, fewer, none⟩, _⟩ := List.forall₂_cons.mp each
  cases routed.symm.trans less
  cases routed.symm.trans list
  cases routed.symm.trans fewer
  refine ⟨r, routed, kinds, (below apart _).mp ?_, (among apart _).mp ?_, fun found => ?_⟩
  · decide +kernel
  · decide +kernel
  · exact absurd ((none apart _).mpr found) (by decide +kernel)

end Compile

end RowQuery
