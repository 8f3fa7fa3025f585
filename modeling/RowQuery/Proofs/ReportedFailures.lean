import RowQuery.Proofs.ListedPaths
import RowQuery.Proofs.PathResolution

/-!
# What callers are told

A request that cannot be read is reported as such, and a query on declared entities that cannot be compiled
is reported by one of few kinds. `Arises` lists the errors that a compilation can end in; each stage has no
others, given settings that are fit, registered joins and known dialects. A join that is not valid is among
them only where a table or the key has no name.
-/

namespace RowQuery

/-! ## Requests -/

/-- An error that callers are told of by a report on the query, or on a part of it. -/
def Error.IsOfQuery (e : Error) : Prop := ∃ kind, e.kind? = some kind ∧ ReportKind.query ∈ kind.lineage

/-- A value that is a text, or null. -/
def Detail.IsTextual (d : Detail) : Prop := d = .null ∨ ∃ s, d = .text s

theorem Sorting.fails_parse (s : String) : Fails Error.IsOfQuery (Sorting.parse s) := by
  simp only [Sorting.parse]
  split
  · exact .error ⟨.sort, rfl, by decide⟩
  · exact .ok _

theorem Filter.fails_parse (s : String) : Fails Error.IsOfQuery (Filter.parse s) := by
  simp only [Filter.parse]
  split
  · exact .error ⟨.filter, rfl, by decide⟩
  · split
    · exact .error ⟨.operator, rfl, by decide⟩
    · split
      · exact .error ⟨.filter, rfl, by decide⟩
      · split
        · exact .error ⟨.filter, rfl, by decide⟩
        · exact .ok _

namespace Query

theorem exists_paramText {d : Detail} (textual : d.IsTextual) : ∃ t, paramText d = .ok t := by
  rcases textual with rfl | ⟨s, rfl⟩
  · exact ⟨_, rfl⟩
  · unfold paramText
    split
    · exact ⟨_, rfl⟩
    · exact ⟨_, rfl⟩

theorem exists_pageText {d : Detail} (textual : d.IsTextual) : ∃ t, pageText d = .ok t := by
  rcases textual with rfl | ⟨s, rfl⟩
  · exact ⟨_, rfl⟩
  · unfold pageText
    split
    · exact ⟨_, rfl⟩
    · exact ⟨_, rfl⟩

theorem isTextual_lookup {entries : List (String × Detail)} (textual : ∀ entry ∈ entries, entry.2.IsTextual)
    (name : String) : ((entries.lookup name).getD .null).IsTextual := by
  induction entries with
  | nil => exact .inl rfl
  | cons entry entries ih =>
    rw [List.lookup_cons]
    split
    · exact textual entry List.mem_cons_self
    · exact ih fun entry member => textual entry (List.mem_cons_of_mem _ member)

/-- Texts make parameters. -/
theorem exists_params {entries : List (String × Detail)} (textual : ∀ entry ∈ entries, entry.2.IsTextual) :
    ∃ p, Params.ofEntries entries = .ok p := by
  have get := isTextual_lookup textual
  obtain ⟨fields, isFields⟩ := exists_paramText (get "_fields")
  obtain ⟨preloads, isPreloads⟩ := exists_paramText (get "_preloads")
  obtain ⟨offset, isOffset⟩ := exists_pageText (get "_offset")
  obtain ⟨limit, isLimit⟩ := exists_pageText (get "_limit")
  obtain ⟨sorts, isSorts⟩ := exists_paramText (get "_sort")
  obtain ⟨filters, isFilters⟩ := exists_paramText (get "_filter")
  simp only [Params.ofEntries, isFields, isPreloads, isOffset, isLimit, isSorts, isFilters]
  rcases get "_q" with null | ⟨s, text⟩
  · rw [null]
    exact ⟨_, rfl⟩
  · rw [text]
    exact ⟨_, rfl⟩

theorem fails_parse (p : Params) : Fails Error.IsOfQuery (parse p) := by
  unfold parse
  refine (Fails.mapM fun part _ => Sorting.fails_parse part).bind fun sorts _ => ?_
  refine (Fails.mapM fun part _ => Filter.fails_parse part).bind fun filters _ => ?_
  split
  · exact .error ⟨.query, rfl, by decide⟩
  · exact .ok _

end Query

/-! ## Settings -/

/-- Settings that are fit for their uses. -/
structure Settings.Valid (s : Settings) : Prop where
  logLevel : ∃ t, s.logLevel = .text t
  dialect : ∃ d, Sql.Dialect.resolve s none = .ok d
  defaultLanguage : ∃ t, s.defaultLanguage = .text t
  allLanguages : ∃ t, s.allLanguages = .text t
  columns : Compile.NamesColumns s
  maxRelationDepth : ∃ n : Int, s.maxRelationDepth = .int n
  strictSort : ∃ b, s.strictSort = .bool b
  joinType : ∃ t, s.joinType = .ok t

theorem Checked.both_eq_ok {α β : Type} {a : Checked α} {b : Checked β} {x : α} {y : β} :
    a.both b = .ok (x, y) ↔ a = .ok x ∧ b = .ok y := by
  cases a <;> cases b <;> simp [Checked.both]

namespace Settings

/-- A setting is the default, or what the environment says is read. -/
theorem fromEnvironment_eq_ok {α : Type} {env : Environment} {name : String} {default v : α}
    {read : String → Except Complaint α} (ok : fromEnvironment env name default read = .ok v) :
    v = default ∨ ∃ t, read t = .ok v := by
  unfold fromEnvironment at ok
  split at ok
  · exact .inl (Except.ok.inj ok).symm
  case h_2 t _ =>
    refine .inr ⟨t, ?_⟩
    unfold Checked.field at ok
    cases outcome : read t with
    | error complaint => simp [outcome, Except.mapError] at ok
    | ok w => simpa [outcome, Except.mapError] using ok

section Read

variable {env : Environment} {name : String} {v : Detail}

theorem text_of_fromEnvironment {default : String}
    (ok : fromEnvironment env name (.text default) (fun s => .ok (.text s)) = .ok v) : ∃ t, v = .text t := by
  rcases fromEnvironment_eq_ok ok with isDefault | ⟨t, read⟩
  · exact ⟨default, isDefault⟩
  · exact ⟨t, (Except.ok.inj read).symm⟩

theorem choice_of_fromEnvironment {default : String} {choices : List String} (listed : default ∈ choices)
    (ok : fromEnvironment env name (.text default) (fun s => (readChoice choices s).map .text) = .ok v) :
    ∃ t ∈ choices, v = .text t := by
  rcases fromEnvironment_eq_ok ok with isDefault | ⟨t, read⟩
  · exact ⟨default, listed, isDefault⟩
  · obtain ⟨choice, chosen, rfl⟩ := map_eq_ok.mp read
    unfold readChoice at chosen
    split at chosen
    case isTrue listed =>
      cases chosen
      exact ⟨t, listed, rfl⟩
    case isFalse => cases chosen

theorem made_of_fromEnvironment {α : Type} {default : α} {read : String → Except Complaint α} {make : α → Detail}
    (ok : fromEnvironment env name (make default) (fun s => (read s).map make) = .ok v) : ∃ a, v = make a := by
  rcases fromEnvironment_eq_ok ok with isDefault | ⟨t, read⟩
  · exact ⟨default, isDefault⟩
  · obtain ⟨a, _, made⟩ := map_eq_ok.mp read
    exact ⟨a, made.symm⟩

end Read

/-- What an environment is read into is fit. -/
theorem valid_of_ofEnvironment {env : Environment} {s : Settings} (ok : ofEnvironment env = .ok s) : s.Valid := by
  obtain ⟨⟨⟨⟨⟨⟨logLevel, dialect⟩, language, all⟩, key, suffix⟩, type, depth⟩, strict, joinType⟩, read, rfl⟩ :=
    map_eq_ok.mp ok
  simp only [Checked.both_eq_ok] at read
  obtain ⟨⟨⟨⟨⟨logLevel, dialect⟩, language, all⟩, key, suffix⟩, type, depth⟩, strict, joinType⟩ := read
  refine ⟨text_of_fromEnvironment logLevel, ?_, text_of_fromEnvironment language, text_of_fromEnvironment all,
    ⟨text_of_fromEnvironment key, text_of_fromEnvironment suffix, text_of_fromEnvironment type⟩,
    made_of_fromEnvironment depth, made_of_fromEnvironment strict, ?_⟩
  · obtain ⟨t, listed, rfl⟩ := choice_of_fromEnvironment (by decide) dialect
    rcases List.mem_pair.mp listed with rfl | rfl
    · exact ⟨.mysql, rfl⟩
    · exact ⟨.ansi, rfl⟩
  · obtain ⟨t, listed, rfl⟩ := choice_of_fromEnvironment (by decide) joinType
    obtain ⟨type, _, rfl⟩ := List.mem_map.mp listed
    have named : JoinType.ofName? type.name = some type := by cases type <;> rfl
    exact ⟨type, by simp [Settings.joinType, JoinType.ofDetail, Detail.member, named]⟩

end Settings

end RowQuery

namespace RowQuery.Compile

open RowQuery.Schema RowQuery.Sql RowQuery.Join

/-! ## What can arise -/

/-- What the caller of a compilation may be told: a report of a documented kind. That of a join is for the case
    that something has no name. -/
def Documented (nameless : Prop) (e : Error) : Prop :=
  ∃ r, e.fault = .report r ∧
    (r.kind ∈ [.fieldNotFound, .invalidSchema, .filter, .sort, .conversion, .operator] ∨
      (r.kind = .invalidJoin ∧ nameless)) ∧
    r.message ≠ "relation has no target entity" ∧ r.message ≠ "field is not a relation"

/-- The errors that a compilation can end in. -/
inductive Arises (nameless : Prop) : Error → Prop where
  | misdeclared {e : Error} (wrong : Catalog.Misdeclared e) : Arises nameless e
  | fieldNotFound (entity field path : String) : Arises nameless (.fieldNotFound entity field path)
  | tooDeep (path : String) (maxDepth : Detail) : Arises nameless (.tooDeep path maxDepth)
  | cyclicSearch (field : String) (chain : List String) : Arises nameless (.cyclicSearch field chain)
  | relationCompared (filter : String) : Arises nameless (.relationCompared filter)
  | relationSorted (sort : String) : Arises nameless (.relationSorted sort)
  | malformedSort (sort : String) : Arises nameless (.malformedSort sort)
  | unsupportedKind (filter value : String) : Arises nameless (.unsupportedKind filter value)
  | inconvertible (filter value : String) (kind : ColumnKind) (fault : ConversionFault) :
      Arises nameless (.inconvertible filter value kind fault)
  | acrossLanguages (filter : String) (operation : Operation) : Arises nameless (.acrossLanguages filter operation)
  | invalidJoin {e : Error} (holds : nameless) (wrong : Config.Invalid e) : Arises nameless e

/-- A message that starts otherwise is neither of those that nothing is told by. -/
theorem apart_of_head? {s : String} {first : Char} (starts : s.toList.head? = some first) (other : first ∉ ['r', 'f'])
    (t : String) : s ++ t ≠ "relation has no target entity" ∧ s ++ t ≠ "field is not a relation" := by
  have begins : (s ++ t).toList.head? = some first := by
    rw [String.toList_append, List.head?_append, starts]
    rfl
  constructor
  · intro same
    rw [same] at begins
    have isFirst : 'r' = first := Option.some.inj begins
    simp [← isFirst] at other
  · intro same
    rw [same] at begins
    have isFirst : 'f' = first := Option.some.inj begins
    simp [← isFirst] at other

namespace Arises

variable (nameless : Prop)

theorem ofPaths : OfPaths (Arises nameless) := ⟨fun _ => misdeclared, fieldNotFound, tooDeep⟩

theorem ofValues : OfValues (Arises nameless) := ⟨unsupportedKind, inconvertible, acrossLanguages⟩

variable {nameless}

/-- What arises is documented. -/
theorem documented {e : Error} (arises : Arises nameless e) : Documented nameless e := by
  cases arises with
  | misdeclared wrong =>
    cases wrong with
    | unresolved name entity =>
      refine ⟨_, rfl, .inl (by simp), ?_⟩
      simp only [String.append_assoc]
      exact apart_of_head? rfl (by decide) _
    | _ => exact ⟨_, rfl, .inl (by simp), by simp, by simp⟩
  | inconvertible filter value kind fault => exact ⟨_, rfl, .inl (by simp), apart_of_head? rfl (by decide) _⟩
  | invalidJoin holds wrong =>
    cases wrong with
    | withoutTable path => exact ⟨_, rfl, .inr ⟨rfl, holds⟩, by simp, by simp⟩
    | missingKeys type path keys =>
      refine ⟨_, rfl, .inr ⟨rfl, holds⟩, ?_⟩
      simp only [String.append_assoc]
      cases type <;> exact apart_of_head? rfl (by decide) _
    | strayKeys type path keys =>
      refine ⟨_, rfl, .inr ⟨rfl, holds⟩, ?_⟩
      simp only [String.append_assoc]
      exact apart_of_head? rfl (by decide) _
  | _ => exact ⟨_, rfl, .inl (by simp), by simp, by simp⟩

end Arises

/-- What a compilation needs: the schemas of declared entities, whose fields have names, settings that are fit,
    registered joins, dialects that are known and a depth that is a number. -/
structure Proper (c : Catalog) (ctx : Context) : Prop where
  schemas : ctx.Over c
  named : ∀ e ∈ c, ∀ x ∈ e.fields, x.1 ≠ ""
  settings : ctx.settings.Valid
  registry : ∀ r ∈ ctx.registry, r.Built ∧ ∃ d, Dialect.resolve ctx.settings r.dialect = .ok d
  dialect : ∃ d, Dialect.resolve ctx.settings ctx.dialect = .ok d
  depth : ∃ limit : Int, ctx.maxDepth = .int limit

/-- A table has no name, or the key of all tables has none. -/
def Nameless (c : Catalog) (ctx : Context) : Prop :=
  (∃ e ∈ c, e.table = "") ∨ ctx.settings.primaryKey = .text ""

/-! ## Stages -/

section Stages

variable {c : Catalog} {ctx : Context} (proper : Proper c ctx)

namespace Proper

include proper

/-- Where everything has a name, sorts can be joined. -/
theorem joinable (named : ¬Nameless c ctx) : Joinable c ctx where
  schemas := proper.schemas
  tables := fun e member empty => named (.inl ⟨e, member, empty⟩)
  registry := fun r registered => (proper.registry r registered).1
  names := proper.settings.columns
  key := fun empty => named (.inr empty)
  joinType := proper.settings.joinType

theorem sortDialect : ∃ d, Dialect.resolve ctx.settings ctx.sortRegistry.dialect = .ok d := by
  unfold Context.sortRegistry
  split
  case h_1 r registry =>
    split
    · exact proper.dialect
    · exact (proper.registry r registry).2
  case h_2 => exact proper.dialect

theorem name_ne_empty {subject : Subject} {schema : Schema} (described : ctx.schemaOf subject = .ok schema)
    {f : Field} (field : f ∈ schema.fields) : f.name ≠ "" := by
  obtain ⟨name, declared⟩ := proper.schemas.exists_describe described
  obtain ⟨e, found, _, fields⟩ := Catalog.describe_eq_ok declared
  obtain ⟨x, inside, made⟩ := exists_left_of_forall₂ fields field
  rw [(Catalog.fieldOf_eq_ok made).1]
  exact proper.named e (List.mem_of_find?_eq_some found) x inside

theorem fails_dialect {P : Error → Prop} : Fails P (Dialect.resolve ctx.settings ctx.dialect) :=
  .of_ok proper.dialect.choose_spec

theorem fails_schemaOf (subject : Subject) : Fails (Arises (Nameless c ctx)) (ctx.schemaOf subject) :=
  (proper.schemas.fails_schemaOf subject).mono fun _ => .misdeclared

theorem fails_related {subject : Subject} {schema : Schema} (described : ctx.schemaOf subject = .ok schema)
    {f : Field} (field : f ∈ schema.fields) (relation : f.isRelation = true) :
    Fails (Arises (Nameless c ctx)) (ctx.related f).result := by
  obtain ⟨target, leads⟩ := proper.schemas.exists_related described field relation
  rw [leads]
  exact proper.fails_schemaOf (.entity target)

end Proper

include proper

theorem fails_narrow (flt : Filter) (rest : List String) (head : String) (site : Site)
    (described : ∃ subject, ctx.schemaOf subject = .ok site.schema) :
    Fails (Arises (Nameless c ctx)) (narrow ctx flt rest head site).result := by
  obtain ⟨limit, limited⟩ := proper.depth
  have follows := follows_narrow (Arises.ofValues (Nameless c ctx)) proper.fails_dialect proper.schemas
    proper.settings.columns flt rest head site described
  exact follows.fails (.relationCompared flt.name)
    (fails_resolve (Arises.ofPaths _) proper.fails_dialect proper.schemas limited _ _ _ _ _ described)

theorem fails_compileFilters (filters : List Filter) (subject : Subject) (table : Option String) :
    Fails (Arises (Nameless c ctx)) (compileFilters ctx filters subject table).result := by
  rw [result_compileFilters]
  refine (proper.fails_schemaOf subject).bind fun schema described => Fails.bind ?_ fun _ _ => .ok _
  exact Fails.mapM fun flt _ => fails_narrow proper flt _ _ _ ⟨subject, described⟩

/-! ### Search -/

theorem fails_searchColumn (term : String) (site : SearchSite) (f : Field) :
    Fails (Arises (Nameless c ctx)) (searchColumn ctx term site f) :=
  (fails_expr proper.fails_dialect (fun read => by cases read) f _).bind fun _ _ => .ok _

theorem fails_searchRelation {subject : Subject} {site : SearchSite} {f : Field} {related : Schema}
    (described : ctx.schemaOf subject = .ok site.schema) (field : f ∈ site.schema.fields)
    (relation : f.isRelation = true) {inner : SearchSite → Traced SearchPart}
    (behind : ∀ next : SearchSite, next.schema = related → Fails (Arises (Nameless c ctx)) (inner next).result) :
    Fails (Arises (Nameless c ctx)) (searchRelation ctx site f related inner).result := by
  unfold searchRelation
  cases ctx.registered? site.walked f.name with
  | some entry =>
    simp only [Traced.result_bind]
    exact (behind _ rfl).bind fun _ _ => .ok _
  | none =>
    simp only [Traced.result_bind]
    refine (behind _ rfl).bind fun part _ => ?_
    cases part.alternatives with
    | nil => exact .ok _
    | cons p ps =>
      simp only [Traced.result_bind, Traced.result_liftM]
      have wellFormed := proper.schemas.wellFormed described f field
      exact (fails_relationFrames proper.settings.columns proper.fails_dialect wellFormed relation _ _).bind
        fun _ _ => .ok _

theorem fails_searchField {term : String} {budget : Nat} {subject : Subject} {site : SearchSite} {f : Field}
    (described : ctx.schemaOf subject = .ok site.schema) (field : f ∈ site.schema.fields)
    (inner : ∀ less < budget, ∀ next : SearchSite, (∃ subject, ctx.schemaOf subject = .ok next.schema) →
      Fails (Arises (Nameless c ctx)) (search ctx term less next).result) :
    Fails (Arises (Nameless c ctx)) (searchField ctx term budget site f).result := by
  unfold searchField
  cases relation : f.isRelation with
  | false => exact fails_searchColumn proper term site f
  | true =>
    simp only [Bool.not_true, Bool.false_eq_true, if_false, Traced.result_bind]
    refine (proper.fails_related described field relation).bind fun related target => ?_
    obtain ⟨next, leads⟩ := proper.schemas.exists_related described field relation
    have behind : ctx.schemaOf (.entity next) = .ok related := leads.symm.trans target
    split
    · exact .error (.cyclicSearch _ _)
    · cases budget with
      | zero =>
        obtain ⟨limit, limited⟩ := proper.depth
        rw [limited]
        exact .error (.tooDeep _ _)
      | succ less =>
        refine fails_searchRelation proper described field relation ?_
        intro site isRelated
        exact inner less (by omega) site ⟨.entity next, isRelated ▸ behind⟩

theorem fails_search (term : String) (budget : Nat) (site : SearchSite)
    (described : ∃ subject, ctx.schemaOf subject = .ok site.schema) :
    Fails (Arises (Nameless c ctx)) (search ctx term budget site).result := by
  induction budget using Nat.strongRecOn generalizing site with
  | ind budget ih =>
    obtain ⟨subject, described⟩ := described
    rw [search_eq, Traced.result_foldlM]
    refine Fails.foldlM (fun found f field => ?_) _
    rw [Traced.result_bind]
    exact (fails_searchField proper described (List.mem_of_mem_filter field) ih).bind fun _ _ => .ok _

theorem fails_compileSearch (term : String) (subject : Subject) (table : Option String) :
    Fails (Arises (Nameless c ctx)) (compileSearch ctx term subject table).result := by
  rw [result_compileSearch]
  split
  · exact .ok _
  · refine (proper.fails_schemaOf subject).bind fun schema described => ?_
    exact fails_search proper term _ _ ⟨subject, described⟩

/-! ### Sorts -/

/-- A configuration that is valid where everything has a name arises as invalid only where something has none. -/
theorem fails_sortClause {config : Config} (valid : ¬Nameless c ctx → config.validate "" = .ok ()) (mode : SortMode)
    (base path : String) : Fails (Arises (Nameless c ctx)) (sortClause ctx mode base path config) := by
  unfold sortClause
  split
  · exact .ok _
  · obtain ⟨d, known⟩ := proper.sortDialect
    obtain ⟨key, isKey⟩ := proper.settings.columns.key
    refine (Registry.fails_join ?_ (.of_ok known) (.of_ok (quotable_eq_ok.mpr isKey)) base true).map _
    intro e failed
    by_cases nameless : Nameless c ctx
    · exact .invalidJoin nameless (config.fails_validate "" e failed)
    · rw [valid nameless] at failed
      cases failed

theorem fails_sortKey (mode : SortMode) (name : String) (rest : List String) (head : String) (site : SortSite)
    (described : ∃ subject, ctx.schemaOf subject = .ok site.schema)
    (based : ¬Nameless c ctx → site.table ≠ "") :
    Fails (Arises (Nameless c ctx)) (sortKey ctx mode name rest head site).result := by
  obtain ⟨limit, limited⟩ := proper.depth
  have deep := fun depth => fails_checkDepth (Arises.ofPaths (Nameless c ctx)) limited depth name
  have found := fun schema head => fails_field (Arises.ofPaths (Nameless c ctx)) schema head name
  induction rest generalizing head site with
  | nil =>
    rw [result_sortKey_nil]
    refine (deep site.depth).bind fun _ _ => (found site.schema head).bind fun f _ => ?_
    split
    · exact .error (.relationSorted name)
    · obtain ⟨language, isText⟩ := proper.settings.defaultLanguage
      have default : ctx.settings.defaultLanguage.quotable = .ok language := quotable_eq_ok.mpr isText
      exact (fails_sortExpr proper.fails_dialect (.of_ok default) f _).bind fun _ _ => .ok _
  | cons next more ih =>
    rw [result_sortKey_cons]
    refine (deep site.depth).bind fun _ _ => (found site.schema head).bind fun f isField => ?_
    obtain ⟨subject, described⟩ := described
    have field := (mem_of_field isField).1
    split
    case isFalse =>
      exact (fails_innerExpr proper.fails_dialect (.fieldNotFound _ _ _) f _).bind fun _ _ => .ok _
    case isTrue relation =>
      refine (proper.fails_related described field relation).bind fun related target => ?_
      obtain ⟨entity, leads⟩ := proper.schemas.exists_related described field relation
      obtain ⟨joinType, setting⟩ := proper.settings.joinType
      obtain ⟨config, configured, _⟩ := exists_sortConfig (fun r registered => (proper.registry r registered).1)
        proper.settings.columns setting (proper.schemas.wellFormed described f field) relation site.table
        (site.walked ++ head)
      have valid : ¬Nameless c ctx → config.validate "" = .ok () := by
        intro named
        obtain ⟨config', again, valid⟩ := (proper.joinable named).exists_sortConfig described field relation
          (based named) (proper.name_ne_empty described field) (site.walked ++ head)
        cases configured.symm.trans again
        exact valid
      refine Fails.bind (.of_ok configured) fun config' isConfig => ?_
      cases configured.symm.trans isConfig
      refine (fails_sortClause proper valid mode _ _).bind fun own _ => Fails.bind ?_ fun _ _ => .ok _
      exact ih next _ ⟨.entity entity, leads.symm.trans target⟩ fun named =>
        (Config.validate_eq_ok.mp (valid named)).1

theorem fails_sortTerm {subject : Subject} {schema : Schema} (described : ctx.schemaOf subject = .ok schema)
    (mode : SortMode) {table : String} (based : ¬Nameless c ctx → table ≠ "") (sort : Sorting) :
    Fails (Arises (Nameless c ctx)) (sortTerm ctx mode schema table sort).result := by
  have walked := fails_sortKey proper mode sort.name sort.path.rest sort.path.head ⟨schema, table, "", 0⟩
    ⟨subject, described⟩ based
  rw [result_sortTerm]
  split
  · exact .ok _
  · split
    · exact .error (.fieldNotFound _ _ _)
    · split
      · exact .ok _
      · exact .error (.malformedSort _)
  case h_3 e _ failed => exact .error (walked e failed)

theorem fails_compileSorts (mode : SortMode) (sorts : List Sorting) (subject : Subject) (table : Option String) :
    Fails (Arises (Nameless c ctx)) (compileSorts ctx mode sorts subject table).result := by
  rw [result_compileSorts]
  refine (proper.fails_schemaOf subject).bind fun schema described => Fails.bind ?_ fun _ _ => .ok _
  refine Fails.mapM fun sort _ => fails_sortTerm proper described mode ?_ sort
  exact fun named => (proper.joinable named).rootTable_ne_empty described table

/-! ### Whole queries -/

omit proper in
theorem fails_checkPreloads (schema : Schema) (preloads : List String) :
    Fails (Arises (Nameless c ctx)) (checkPreloads schema preloads) :=
  Fails.forM fun p _ => (fails_field (Arises.ofPaths _) schema _ p).map _

theorem fails_selectList (schema : Schema) (names : List String) (table : Option String) :
    Fails (Arises (Nameless c ctx)) (ctx.localizer.selectList schema names table .null) := by
  have items : ∀ (fields : List Field) (table : Option String),
      Fails (Arises (Nameless c ctx)) (fields.mapM fun f => ctx.localizer.selectItem f table .null) :=
    fun fields table => Fails.mapM fun f _ =>
      (fails_expr proper.fails_dialect (fun read => by cases read) f table).bind fun _ _ => .ok _
  simp only [Localizer.selectList]
  split
  · exact items _ _
  · refine (Fails.mapM fun name _ => ?_).bind fun fields _ => items _ _
    exact fails_field (Arises.ofPaths _) schema name ""

theorem exists_summaryLevel : ∃ level, Log.summaryLevel ctx.settings = .ok level := by
  obtain ⟨t, isText⟩ := proper.settings.logLevel
  rw [Log.summaryLevel, isText]
  split
  · exact ⟨_, rfl⟩
  · exact ⟨_, rfl⟩

theorem fails_compileQuery (strict : Bool) (q : Query) (subject : Subject) (table : Option String) :
    Fails (Arises (Nameless c ctx)) (compileQuery ctx strict q subject table).result := by
  simp only [compileQuery, Traced.result_bind, result_describe, Traced.result_liftM]
  refine (proper.fails_schemaOf subject).bind fun schema described => ?_
  refine (fails_compileFilters proper _ _ _).bind fun filters filtered => ?_
  refine (fails_compileSearch proper _ _ _).bind fun search searched => ?_
  refine (fails_checkPreloads schema _).bind fun _ _ => ?_
  refine (fails_requestJoins (merged_of_parts described filtered searched).sound.registered ?_ _).bind fun _ _ => ?_
  · intro r registered path config known inlined
    obtain ⟨built, d, dialect⟩ := proper.registry r registered
    obtain ⟨key, isKey⟩ := proper.settings.columns.key
    obtain ⟨x, joined⟩ := Registry.exists_join (quotable_eq_ok.mpr isKey) dialect (built.valid known) _ inlined
    exact .of_ok joined
  refine (fails_compileSorts proper _ _ _ _).bind fun _ _ => ?_
  obtain ⟨level, levelled⟩ := exists_summaryLevel proper
  split
  · simp only [Traced.result_bind, Traced.result_pure, Traced.result_liftM, levelled]
    exact .ok _
  · simp only [Traced.result_bind, Traced.result_liftM, levelled]
    exact (fails_selectList proper schema _ _).bind fun _ _ => .ok _

end Stages

namespace Books

/-- Volumes and their authors under some settings, without registered joins. -/
def under (settings : Settings) : Context :=
  { settings, schemaOf := ({} : Cache).describe (.ofDecls Samples.library)
    maxDepth := settings.maxRelationDepth }

theorem proper_under {env : Settings.Environment} {settings : Settings}
    (read : Settings.ofEnvironment env = .ok settings) : Proper (.ofDecls Samples.library) (under settings) where
  schemas := fun _ => rfl
  named := by decide
  settings := Settings.valid_of_ofEnvironment read
  registry := nofun
  dialect := (Settings.valid_of_ofEnvironment read).dialect
  depth := (Settings.valid_of_ofEnvironment read).maxRelationDepth

theorem proper_joinedIn : Proper (.ofDecls Samples.library) (joinedIn "ansi") where
  schemas := fun _ => rfl
  named := by decide
  settings := Settings.valid_of_ofEnvironment (show Settings.ofEnvironment [] = .ok {} from rfl)
  registry := by
    intro r registered
    refine ⟨(joinable_joinedIn "ansi").registry r registered, .ansi, ?_⟩
    cases registered
    rfl
  dialect := ⟨.mysql, rfl⟩
  depth := ⟨1, rfl⟩

end Books

end RowQuery.Compile
