import RowQuery.Proofs.EntityJoins
import RowQuery.Proofs.JoinSemantics
import RowQuery.Proofs.RelationFilters
import RowQuery.Session

/-!
# Joins in place of subselects

A filter behind a relation is a subselect, or a condition on a joined table if the relation is
registered. Both select the same rows, unless the filter asks for a null: a left join puts nulls where
it finds no row, so the rows to which nothing is joined are then selected as well.
-/

namespace RowQuery.Compile

open RowQuery.Schema RowQuery.Sql RowQuery.Join

variable {δ : Type} {E : Engine δ} {db : Database δ}

/-! ## What a registered relation joins -/

/-- Whether a relation leaves a row with nulls in the place of a related row when it is joined: no row
    is linked to it, or a row of the pivot table is that leads nowhere. A polymorphic relation also
    asks for the type of the related row, which is never a null. -/
def Unjoined (E : Engine δ) (db : Database δ) (settings : Settings) (x : Crossing) (s : Row δ) : Prop :=
  let key := settings.primaryKey.plain
  let suffix := settings.foreignKeySuffix.plain
  match x.field.relation with
  | .direct => ∀ t ∈ db x.related, ¬ Linked E db settings x s t
  | .manyToMany => ∃ pivot, x.field.manyToMany = some pivot ∧
      ((∀ p ∈ db pivot, ¬ E.Same (p (x.outer ++ suffix)) (s key)) ∨
        ∃ p ∈ db pivot, E.Same (p (x.outer ++ suffix)) (s key) ∧
          ∀ t ∈ db x.related, ¬ E.Same (p (x.related ++ suffix)) (t key))
  | _ => False

/-- The tables that a relation involves. -/
def Crossing.tables (x : Crossing) : List String :=
  x.outer :: x.related :: if x.field.relation = .manyToMany then x.field.manyToMany.toList else []

theorem Crossing.outer_ne_related {x : Crossing} (apart : x.tables.Nodup) : x.outer ≠ x.related := by
  intro same
  simp [tables, same] at apart

/-- The condition of a join compares the row that is joined with the one it is joined to. -/
theorem holds_on {type : JoinType} {table base localKey foreignKey : String} {t s : Row δ}
    {scopes : Scopes δ} (apart : base ≠ table) :
    (JoinStep.on { type, table, left := .of base localKey, right := .of table foreignKey }).Holds E db
        ((table, t) :: (base, s) :: scopes) ↔ E.Same (s localKey) (t foreignKey) := by
  simp only [JoinStep.on, holds_sameColumn, Column.of, value_of_head, value_of_enclosing apart]

theorem holds_discriminator {table name value : String} {t : Row δ} {scopes : Scopes δ} :
    (Discriminator.predicate ⟨.of table name, value⟩).Holds E db ((table, t) :: scopes) ↔
      E.Same (t name) (some (E.text value)) := by
  simp only [Discriminator.predicate, holds_hasText, Column.of, value_of_head]

/-- The left joins of a relation that follows the conventions lead to the rows it links to, and to
    nulls where nothing is joined. -/
theorem exists_leftJoined {settings : Settings} {f : Field} {outer : String} {config : Config}
    {clause : JoinClause} {type : Option Discriminator} {p : Predicate} {R : Row δ → Prop} {s : Row δ}
    (follows : Config.Conventional settings f outer config.table config.plan)
    (made : Claused settings outer config clause type)
    (apart : (Crossing.tables ⟨f, outer, config.table⟩).Nodup)
    (inner : ∀ t scopes, p.Holds E db ((config.table, t) :: scopes) ↔ R t) :
    (∃ joined, LeftJoinedAll E db clause [(outer, s)] joined ∧ p.Holds E db joined ∧
      ∀ x ∈ type, x.predicate.Holds E db joined) ↔
    (∃ t ∈ db config.table, Linked E db settings ⟨f, outer, config.table⟩ s t ∧ R t) ∨
      R nullRow ∧ Unjoined E db settings ⟨f, outer, config.table⟩ s := by
  have outerRelated : outer ≠ config.table := Crossing.outer_ne_related apart
  cases made with
  | direct plan =>
    rw [plan] at follows
    cases follows with
    | direct kind named =>
      rw [Settings.keyName, quotable_eq_ok] at named
      simp only [exists_leftJoinedAll_cons, exists_leftJoinedAll_nil, holds_on outerRelated, inner, Linked,
        Unjoined, kind, named, Detail.plain, Option.not_mem_none, false_implies, implies_true, and_true]
      rw [and_comm (b := R nullRow)]
  | @pivot pivot toOuter toRelated key plan named =>
    rw [plan] at follows
    cases follows with
    | pivot kind through baseColumn relatedColumn =>
      obtain ⟨_, suffix, same, isText, rfl⟩ := append_eq_ok.mp baseColumn
      cases same
      obtain ⟨_, suffix', same, isText', rfl⟩ := append_eq_ok.mp relatedColumn
      cases same
      cases isText.symm.trans isText'
      rw [Settings.keyName, quotable_eq_ok] at named
      have outerPivot : outer ≠ pivot := by
        intro same
        simp [Crossing.tables, kind, through, same] at apart
      have pivotRelated : pivot ≠ config.table := by
        intro same
        simp [Crossing.tables, kind, through, same] at apart
      simp only [exists_leftJoinedAll_cons, exists_leftJoinedAll_nil, holds_on outerPivot,
        holds_on pivotRelated, inner, Linked, Unjoined, kind, through, named, isText, Detail.plain,
        Option.not_mem_none, false_implies, implies_true, and_true, Option.some.injEq, exists_eq_left',
        nullRow, Engine.not_same_none, false_and, and_false, exists_false, false_or, not_false_eq_true,
        true_and, Engine.same_comm (x := s _)]
      constructor
      · rintro (⟨row, inPivot, toOuter, ⟨t, inRelated, toRelated, passes⟩ | ⟨dangling, passes⟩⟩ |
          ⟨none, passes⟩)
        · exact .inl ⟨t, inRelated, ⟨row, inPivot, toOuter, toRelated⟩, passes⟩
        · exact .inr ⟨passes, .inr ⟨row, inPivot, toOuter, dangling⟩⟩
        · exact .inr ⟨passes, .inl none⟩
      · rintro (⟨t, inRelated, ⟨row, inPivot, toOuter, toRelated⟩, passes⟩ |
          ⟨passes, none | ⟨row, inPivot, toOuter, dangling⟩⟩)
        · exact .inl ⟨row, inPivot, toOuter, .inl ⟨t, inRelated, toRelated, passes⟩⟩
        · exact .inr ⟨none, passes⟩
        · exact .inl ⟨row, inPivot, toOuter, .inr ⟨dangling, passes⟩⟩
  | polymorphic plan named =>
    rw [plan] at follows
    cases follows with
    | polymorphic kind idColumn typeColumn =>
      obtain ⟨stem, suffix, declared, isText, rfl⟩ := append_eq_ok.mp idColumn
      obtain ⟨stem', typeSuffix, declared', isText', rfl⟩ := append_eq_ok.mp typeColumn
      cases declared.symm.trans declared'
      rw [Settings.keyName, quotable_eq_ok] at named
      simp only [exists_leftJoinedAll_cons, exists_leftJoinedAll_nil, holds_on outerRelated, inner, Linked,
        Unjoined, kind, ofText?_eq_text.mp declared, named, isText, isText', Detail.plain,
        Option.mem_some_iff, forall_eq', holds_discriminator, Option.some.injEq, exists_eq_left', nullRow,
        Engine.not_same_none, and_false, or_false, Engine.same_comm (x := s _)]
      constructor
      · rintro ⟨t, inRelated, refers, passes, type⟩
        exact ⟨t, inRelated, ⟨refers, type⟩, passes⟩
      · rintro ⟨t, inRelated, ⟨refers, type⟩, passes⟩
        exact ⟨t, inRelated, refers, passes, type⟩

/-- A configuration that follows the conventions has a clause. -/
theorem exists_claused {settings : Settings} {f : Field} {outer key : String} {config : Config}
    (follows : Config.Conventional settings f outer config.table config.plan)
    (named : settings.keyName = .ok key) : ∃ clause type, Claused settings outer config clause type := by
  generalize plan : config.plan = p at follows
  cases follows with
  | direct => exact ⟨_, _, .direct plan⟩
  | pivot => exact ⟨_, _, .pivot plan named⟩
  | polymorphic => exact ⟨_, _, .polymorphic plan named⟩

/-- What a relation follows as a join it can follow as a subselect. -/
theorem exists_relationFrames {f : Field} {outer related : String} {plan : Plan}
    (follows : Config.Conventional {} f outer related plan) :
    ∃ frames, relationFrames {} none f outer related = .ok frames := by
  cases follows with
  | direct kind =>
    simp only [relationFrames, kind]
    exact ⟨_, rfl⟩
  | pivot kind through =>
    simp only [relationFrames, kind, through]
    exact ⟨_, rfl⟩
  | polymorphic kind idColumn =>
    obtain ⟨stem, _, declared, _, _⟩ := append_eq_ok.mp idColumn
    simp only [relationFrames, kind, declared]
    exact ⟨_, rfl⟩

/-! ## One filter behind a relation -/

/-- What queries on declared entities are compiled with by default, with some registered joins or
    none. -/
def defaults (decls : List EntityDecl) (registry : Option Registry) : Context :=
  { Session.contextOf Session.sharedCompiler { catalog := .ofDecls decls } with registry }

section Defaults

variable {decls : List EntityDecl} {registry : Option Registry} {subject : Subject}
  {schema related : Schema} {flt : Filter} {f g : Field}

theorem describe_of_schemaOf (described : (defaults decls registry).schemaOf subject = .ok schema) :
    ∃ name, (Catalog.ofDecls decls).describe name = .ok schema := by
  have known : (({} : Cache).describe (Catalog.ofDecls decls) subject) = .ok schema := described
  unfold Cache.describe at known
  cases entity : subject.entity? with
  | none => simp [entity] at known
  | some name =>
    rw [entity] at known
    exact ⟨name, known⟩

theorem describe_of_related (target : ((defaults decls registry).related f).result = .ok related) :
    ∃ name, f.target = some name ∧ (Catalog.ofDecls decls).describe name = .ok related := by
  unfold Context.related at target
  cases isTarget : f.target with
  | none => simp [isTarget] at target
  | some name =>
    rw [isTarget, result_describe] at target
    exact ⟨name, rfl, target⟩

/-- Without a language, what a filter asks of a field it asks of the column. -/
theorem leafCondition_defaults (table : Option String) :
    leafCondition (defaults decls registry) flt g table =
      (flt.test (Route.kind ⟨[], g, []⟩)).map (.test (.column { table, name := g.column })) := by
  have kind : Route.kind ⟨[], g, []⟩ = if g.translated then some .string else g.kind := by
    cases translated : g.translated <;> simp [Route.kind, translated]
  have expr : (defaults decls registry).localizer.expr g table .null =
      .ok (.column { table, name := g.column }) := by
    cases translated : g.translated <;> simp only [Localizer.expr, translated] <;> rfl
  have single : (g.translated && (defaults decls registry).localizer.isAll
      (defaults decls registry).localizer.ownLanguage) = false := Bool.and_false _
  unfold leafCondition
  simp only [single, Bool.false_eq_true, if_false, expr, ← kind]
  cases flt.test (Route.kind ⟨[], g, []⟩) <;> rfl

theorem checkDepth_defaults {depth : Nat} (shallow : depth ≤ 8) (path : String) :
    (defaults decls registry).checkDepth depth path = .ok () := by
  have within : ¬ (8 : Int) < depth := by omega
  show Depth.check (.int 8) (.int depth) path = .ok ()
  simp only [Depth.check, Detail.exceeds, within, decide_false]
  rfl

/-- A walk that ends in a column succeeds if the values of the filter convert. -/
theorem narrow_column {name : String} {site : Site} (shallow : site.depth ≤ 8)
    (found : site.schema.get? name = some g) (column : g.isRelation = false) {n : Narrowing} :
    (narrow (defaults decls registry) flt [] name site).result = .ok n ↔
      ∃ t, flt.test (Route.kind ⟨[], g, []⟩) = .ok t ∧
        n = ⟨.test (.column { table := site.qualifier, name := g.column }) t, []⟩ := by
  simp only [narrow, Traced.result_bind, Traced.result_liftM, bind_eq_ok, checkDepth_defaults shallow,
    field_of_get? found, column, leafCondition_defaults, map_eq_ok, Traced.result_pure, Except.ok.injEq,
    exists_eq_left', Bool.false_eq_true, if_false]
  constructor
  · rintro ⟨_, _, _, ⟨t, test, rfl⟩, rfl⟩
    exact ⟨t, test, rfl⟩
  · rintro ⟨t, test, rfl⟩
    exact ⟨(), trivial, _, ⟨t, test, rfl⟩, rfl⟩

section Walks

variable {name next table : String} {n : Narrowing}

/-- Behind a registered relation the column of the joined table is tested. -/
theorem narrow_joined {r : Registry} {config : Config} (found : schema.get? name = some f)
    (relation : f.isRelation = true)
    (target : ((defaults decls (some r)).related f).result = .ok related)
    (registered : r.get? name = some config)
    (foundNext : related.get? next = some g) (column : g.isRelation = false) :
    (narrow (defaults decls (some r)) flt [next] name (.root schema table)).result = .ok n ↔
      ∃ t, flt.test (Route.kind ⟨[], g, []⟩) = .ok t ∧
        n = ⟨.test (.column (.of config.table g.column)) t, [name]⟩ := by
  have isRegistered : (defaults decls (some r)).registered? (some "") name = some (name, config) := by
    simp [Context.registered?, defaults, registered]
  have shallow : (Site.behindJoin (.root schema table) related name config).depth ≤ 8 := by
    simp [Site.behindJoin, Site.root]
  rw [narrow]
  simp only [Traced.result_bind, Traced.result_liftM, bind_eq_ok, checkDepth_defaults (Nat.zero_le 8),
    Site.root, field_of_get? found, relation, target, isRegistered, Except.ok.injEq, exists_eq_left',
    Bool.not_true, Bool.false_eq_true, if_false, Traced.result_pure]
  constructor
  · rintro ⟨_, _, inner, walk, rfl⟩
    obtain ⟨t, test, rfl⟩ := (narrow_column shallow foundNext column).mp walk
    exact ⟨t, test, rfl⟩
  · rintro ⟨t, test, rfl⟩
    exact ⟨(), trivial, _, (narrow_column shallow foundNext column).mpr ⟨t, test, rfl⟩, rfl⟩

/-- Behind any other relation the column is tested in a subselect. -/
theorem narrow_nested {frames : List Frame} (found : schema.get? name = some f)
    (relation : f.isRelation = true)
    (target : ((defaults decls none).related f).result = .ok related)
    (framed : relationFrames {} none f table related.table = .ok frames)
    (foundNext : related.get? next = some g) (column : g.isRelation = false) :
    (narrow (defaults decls none) flt [next] name (.root schema table)).result = .ok n ↔
      ∃ t, flt.test (Route.kind ⟨[], g, []⟩) = .ok t ∧
        n = ⟨Frame.nest frames (.test (.column
          { table := (Site.behindSelect (.root schema table) related f).qualifier, name := g.column }) t),
          []⟩ := by
  have unregistered : (defaults decls none).registered? (some "") name = none := rfl
  have framed' : relationFrames (defaults decls none).settings (defaults decls none).dialect f table
    related.table = .ok frames := framed
  have shallow : (Site.behindSelect (.root schema table) related f).depth ≤ 8 := by
    simp [Site.behindSelect, Site.root]
  rw [narrow]
  simp only [Traced.result_bind, Traced.result_liftM, bind_eq_ok, checkDepth_defaults (Nat.zero_le 8),
    Site.root, field_of_get? found, relation, target, unregistered, framed', Except.ok.injEq,
    exists_eq_left', Bool.not_true, Bool.false_eq_true, if_false, Traced.result_pure]
  constructor
  · rintro ⟨_, _, inner, walk, rfl⟩
    obtain ⟨t, test, rfl⟩ := (narrow_column shallow foundNext column).mp walk
    exact ⟨t, test, rfl⟩
  · rintro ⟨t, test, rfl⟩
    exact ⟨(), trivial, _, (narrow_column shallow foundNext column).mpr ⟨t, test, rfl⟩, rfl⟩

end Walks

/-- A query of one filter is compiled if its walk succeeds and its paths can be joined. -/
theorem compileQuery_single_eq_ok {strict : Bool} {c : Compiled}
    (described : (defaults decls registry).schemaOf subject = .ok schema) :
    (compileQuery (defaults decls registry) strict { filters := [flt] } subject none).result = .ok c ↔
      ∃ n clauses types, (narrow (defaults decls registry) flt flt.path.rest flt.path.head
          (.root schema schema.table)).result = .ok n ∧
        requestJoins (defaults decls registry) schema.table (Text.mergeNew [] n.paths) [] =
          .ok (clauses, types) ∧
        c = {
          table := schema.table, filters := [n.condition], search := [], discriminators := types
          order := [], select := [], joins := clauses, paths := Text.mergeNew [] n.paths, preloads := []
          offset := -1, limit := -1, requested := none, style := .mysql
          joinStyle := (defaults decls registry).sortRegistry.style {} } := by
  constructor
  · intro ok
    obtain ⟨⟨schema', filters, search, joins, types, sorts, select⟩, yields⟩ := compileQuery_eq_ok ok
    cases described.symm.trans yields.schema
    obtain ⟨_, found, described', walks, rfl⟩ := compileFilters_eq_ok.mp yields.filters
    cases described.symm.trans described'
    rw [rootTable_rootTable] at walks
    obtain ⟨n, _, walk, none, rfl⟩ := List.forall₂_cons_left_iff.mp walks
    cases none
    obtain ⟨_, sorted, _, keys, rfl⟩ := compileSorts_eq_ok yields.sorts
    cases keys
    cases (Except.ok.inj yields.search : ⟨[], []⟩ = search)
    cases (Except.ok.inj yields.select : [] = select)
    have joined := yields.joins
    simp only [Stages.paths, Stages.preloads, List.flatMap_cons, List.flatMap_nil,
      List.append_nil] at joined
    refine ⟨n, joins, types, walk, joined, yields.compiled.trans ?_⟩
    simp only [Stages.paths, Stages.preloads, joinedPreloads, List.flatMap_cons, List.flatMap_nil,
      List.append_nil, List.map_cons, List.map_nil, List.filter_nil]
    rfl
  · rintro ⟨n, clauses, types, walk, joins, rfl⟩
    have filtered : (compileFilters (defaults decls registry) [flt] subject
        (some (rootTable schema none))).result = .ok ⟨[n.condition], Text.mergeNew [] n.paths⟩ := by
      refine compileFilters_eq_ok.mpr ⟨schema, [n], described, ?_, by simp⟩
      rw [rootTable_rootTable]
      exact .cons walk .nil
    have sorted : (compileSorts (defaults decls registry) { strict, joined := Text.mergeNew [] n.paths } []
        subject (some (rootTable schema none))).result = .ok ⟨[], []⟩ := by
      simp only [compileSorts, Traced.result_bind, result_describe, described]
      rfl
    apply Stages.Yield.result_eq (s := ⟨schema, ⟨[n.condition], Text.mergeNew [] n.paths⟩, ⟨[], []⟩, clauses,
      types, ⟨[], []⟩, []⟩)
    refine ⟨described, filtered, rfl, rfl, joins, sorted, rfl, ⟨_, rfl⟩, ?_⟩
    simp only [Stages.paths, Stages.preloads, joinedPreloads, List.filter_nil, List.append_nil]
    rfl

end Defaults

/-! ## Both ways compared -/

theorem holds_column_test {flt : Filter} {kind : Option ColumnKind} {t : Test} {column : Column}
    {name : String} {row : Row δ} {scopes : Scopes δ} (test : flt.test kind = .ok t)
    (value : column.value scopes = row name) :
    (Predicate.test (.column column) t).Holds E db scopes ↔ flt.Accepts E kind (row name) := by
  rw [← Filter.truth_test E test, ← value]
  rfl

theorem accepts_null {flt : Filter} {kind : Option ColumnKind} :
    flt.Accepts E kind none ↔ flt.isNullTest = true ∧ flt.operation = .equal := by
  unfold Filter.Accepts
  cases operation : flt.operation <;>
    simp [Filter.Compares, Filter.isNullTest, operation, isNullWord_iff]

/-- A compiled query of one filter, with its joins and their discriminator. -/
structure Joined (table : String) (clause : JoinClause) (type : Option Discriminator) (p : Predicate)
    (c : Compiled) : Prop where
  table : c.table = table
  filters : c.filters = [p]
  search : c.search = []
  joins : c.joins.flatten = clause
  discriminators : c.discriminators = type.toList

/-- A query of one filter with left joins selects the rows from which they lead to some that satisfy
    the condition. -/
theorem Joined.selects_iff {table : String} {clause : JoinClause} {type : Option Discriminator}
    {p : Predicate} {c : Compiled} (compiled : Joined table clause type p c)
    (left : ∀ j ∈ clause, j.type = .left) (row : Row δ) :
    c.Selects E db row ↔ row ∈ db table ∧ ∃ joined, LeftJoinedAll E db clause [(table, row)] joined ∧
      p.Holds E db joined ∧ ∀ x ∈ type, x.predicate.Holds E db joined := by
  rw [← compiled.joins] at left
  rw [Compiled.selects_of_left left]
  simp only [compiled.joins, Compiled.holds_condition, compiled.filters, compiled.search,
    compiled.discriminators, compiled.table, List.forall_mem_singleton, true_or, true_and,
    Option.mem_toList]
  rfl

section Selects

variable {flt : Filter} {kind : Option ColumnKind} {t : Test} {f : Field} {outer name : String}
  {c : Compiled}

/-- A subselect selects the rows that the relation links to a row that passes. -/
theorem selects_nested_iff {related : String} {frames : List Frame} {column : Column}
    (framed : relationFrames {} none f outer related = .ok frames) (apart : outer ≠ related)
    (test : flt.test kind = .ok t)
    (value : ∀ (row : Row δ) scopes, column.value ((related, row) :: scopes) = row name)
    (compiled : Joined outer [] none (Frame.nest frames (.test (.column column) t)) c) (row : Row δ) :
    c.Selects E db row ↔ row ∈ db outer ∧ ∃ t ∈ db related, Linked E db {} ⟨f, outer, related⟩ row t ∧
      flt.Accepts E kind (t name) := by
  have inner : ∀ row scopes, (Predicate.test (.column column) t).Holds E db ((related, row) :: scopes) ↔
      flt.Accepts E kind (row name) := fun row scopes => holds_column_test test (value row scopes)
  rw [compiled.selects_iff (by simp), exists_leftJoinedAll_nil,
    holds_nest (framed_of_relationFrames framed) (fun _ => apart) inner row []]
  simp

/-- A left join also selects the rows that nothing is joined to, if the filter asks for a null. -/
theorem selects_joined_iff {config : Config} {clause : JoinClause} {type : Option Discriminator}
    (left : config.joinType = .left)
    (follows : Config.Conventional {} f outer config.table config.plan)
    (made : Claused {} outer config clause type)
    (apart : (Crossing.tables ⟨f, outer, config.table⟩).Nodup) (test : flt.test kind = .ok t)
    (compiled : Joined outer clause type (.test (.column (.of config.table name)) t) c) (row : Row δ) :
    c.Selects E db row ↔ row ∈ db outer ∧
      ((∃ t ∈ db config.table, Linked E db {} ⟨f, outer, config.table⟩ row t ∧
        flt.Accepts E kind (t name)) ∨
      (flt.isNullTest = true ∧ flt.operation = .equal) ∧
        Unjoined E db {} ⟨f, outer, config.table⟩ row) := by
  have isLeft : ∀ j ∈ clause, j.type = .left := by
    rw [← left]
    exact made.type_eq
  rw [compiled.selects_iff isLeft, ← accepts_null]
  refine and_congr_right fun _ => ?_
  exact exists_leftJoined follows made apart fun row scopes =>
    holds_column_test test (value_of_head config.table name false row scopes)

end Selects

/-- The registry of a declared entity holds a relation without a tag as the conventions have it. -/
theorem conventional_of_registered {decls : List EntityDecl} {subject : Subject}
    {schema related : Schema} {registry : Registry} {f : Field}
    (described : (defaults decls none).schemaOf subject = .ok schema) (member : f ∈ schema.fields)
    (relation : f.isRelation = true) (untagged : nonEmpty? f.join = none)
    (target : ((defaults decls none).related f).result = .ok related)
    (registered : Registry.ofSchema {} none schema [] = .ok registry) :
    registry.dialect = none ∧ ∃ config, registry.get? f.name = some config ∧
      config.validate "" = .ok () ∧ config.joinType = .left ∧ config.table = related.table ∧
      Config.Conventional {} f schema.table config.table config.plan := by
  obtain ⟨_, isSchema⟩ := describe_of_schemaOf described
  obtain ⟨_, isTarget, isRelated⟩ := describe_of_related target
  obtain ⟨dialect, each⟩ := Registry.holding_of_ofSchema (Catalog.nodup_describe isSchema) registered
  obtain ⟨config, own, valid, held⟩ := each f member relation
  rw [Registry.ownConfig, untagged] at own
  have valid := Config.validate_eq_ok.mp valid
  obtain ⟨setting, table, follows⟩ := Config.conventional_of_ofField own valid.2.1
  have same := (Catalog.targetTable_of_describe isSchema member isTarget isRelated).symm.trans table
  exact ⟨dialect, config, held, Config.validate_eq_ok.mpr valid, (Except.ok.inj setting).symm,
    (Option.some.inj same).symm, follows⟩

theorem requestJoins_single {decls : List EntityDecl} {r : Registry} {name table : String}
    {config : Config} {clause : JoinClause} {type : Option Discriminator} (dialect : r.dialect = none)
    (held : r.get? name = some config) (valid : config.validate "" = .ok ())
    (made : Claused {} table config clause type) :
    requestJoins (defaults decls (some r)) table [name] [] = .ok ([clause], type.toList) := by
  have join : r.join {} table config false = .ok (clause, type) :=
    join_eq_ok.mpr ⟨valid, ⟨.mysql, by rw [dialect]; rfl⟩, clause, type, made, rfl⟩
  have needed : r.joins {} table [name] false = .ok ([clause], type.toList) := by
    refine joins_eq_ok.mpr ⟨[(clause, type)], .cons ⟨config, held, join⟩ .nil, rfl, ?_⟩
    cases type <;> rfl
  exact requestJoins_eq_ok.mpr (.inr ⟨r, [clause], [], [], rfl, needed, rfl, rfl⟩)

/-- A filter is compiled if its values convert, where this is what its walk depends on. -/
theorem joined_of_walk {decls : List EntityDecl} {registry : Option Registry} {strict : Bool}
    {subject : Subject} {schema : Schema} {flt : Filter} {kind : Option ColumnKind}
    {condition : Test → Predicate} {rest paths : List String} {clauses : List JoinClause}
    {type : Option Discriminator}
    (described : (defaults decls registry).schemaOf subject = .ok schema) (path : flt.path.rest = rest)
    (walks : ∀ n, (narrow (defaults decls registry) flt rest flt.path.head
      (.root schema schema.table)).result = .ok n ↔ ∃ t, flt.test kind = .ok t ∧ n = ⟨condition t, paths⟩)
    (joins : requestJoins (defaults decls registry) schema.table (Text.mergeNew [] paths) [] =
      .ok (clauses, type.toList)) :
    ((∃ c, (compileQuery (defaults decls registry) strict { filters := [flt] } subject none).result =
        .ok c) ↔ ∃ t, flt.test kind = .ok t) ∧
    ∀ c, (compileQuery (defaults decls registry) strict { filters := [flt] } subject none).result =
        .ok c →
      ∃ t, flt.test kind = .ok t ∧ Joined schema.table clauses.flatten type (condition t) c := by
  have shape : ∀ c, (compileQuery (defaults decls registry) strict { filters := [flt] } subject
      none).result = .ok c →
        ∃ t, flt.test kind = .ok t ∧ Joined schema.table clauses.flatten type (condition t) c := by
    intro c ok
    obtain ⟨n, _, _, walk, joined, rfl⟩ := (compileQuery_single_eq_ok described).mp ok
    rw [path] at walk
    obtain ⟨t, test, rfl⟩ := (walks n).mp walk
    cases joins.symm.trans joined
    exact ⟨t, test, rfl, rfl, rfl, rfl, rfl⟩
  refine ⟨⟨?_, ?_⟩, shape⟩
  · rintro ⟨c, ok⟩
    obtain ⟨t, test, _⟩ := shape c ok
    exact ⟨t, test⟩
  · rintro ⟨t, test⟩
    have walk := (walks _).mpr ⟨t, test, rfl⟩
    rw [← path] at walk
    exact ⟨_, (compileQuery_single_eq_ok described).mpr ⟨_, _, _, walk, joins, rfl⟩⟩

/-- Of a filter behind a relation without a tag, on a column of the related entity, both ways select
    the same rows, with one exception: a filter that asks for a null is also satisfied by the nulls of
    a left join, so the rows that the relation leaves without a related row are selected as well if it
    is joined. One way succeeds exactly if the other does. -/
theorem selects_registered_iff {decls : List EntityDecl} {strict : Bool} {subject : Subject}
    {schema related : Schema} {registry : Registry} {flt : Filter} {next : String} {f g : Field}
    (described : (defaults decls none).schemaOf subject = .ok schema)
    (found : schema.get? flt.path.head = some f) (relation : f.isRelation = true)
    (untagged : nonEmpty? f.join = none)
    (target : ((defaults decls none).related f).result = .ok related)
    (path : flt.path.rest = [next]) (foundNext : related.get? next = some g)
    (column : g.isRelation = false) (registered : Registry.ofSchema {} none schema [] = .ok registry)
    (apart : (Crossing.tables ⟨f, schema.table, related.table⟩).Nodup) :
    ((∃ c, (compileQuery (defaults decls (some registry)) strict { filters := [flt] } subject
        none).result = .ok c) ↔
      ∃ c, (compileQuery (defaults decls none) strict { filters := [flt] } subject none).result =
        .ok c) ∧
    ∀ joined nested,
      (compileQuery (defaults decls (some registry)) strict { filters := [flt] } subject none).result =
        .ok joined →
      (compileQuery (defaults decls none) strict { filters := [flt] } subject none).result =
        .ok nested →
      read joined.whereText joined.args = joined.condition? ∧
      read nested.whereText nested.args = nested.condition? ∧
      ∀ {δ : Type} (E : Engine δ) (db : Database δ) (row : Row δ),
        joined.Selects E db row ↔ nested.Selects E db row ∨
          flt.isNullTest = true ∧ flt.operation = .equal ∧ row ∈ db schema.table ∧
            Unjoined E db {} ⟨f, schema.table, related.table⟩ row := by
  have first : schema.fields.find? (·.name == flt.path.head) = some f := found
  have named : f.name = flt.path.head := by simpa using List.find?_some first
  obtain ⟨dialect, config, held, valid, left, same, follows⟩ := conventional_of_registered described
    (List.mem_of_find?_eq_some first) relation untagged target registered
  rw [named] at held
  have outerRelated : schema.table ≠ related.table := Crossing.outer_ne_related apart
  rw [← same] at apart
  obtain ⟨clause, type, made⟩ := exists_claused follows (show ({} : Settings).keyName = .ok "ID" from rfl)
  obtain ⟨frames, framed⟩ := exists_relationFrames follows
  rw [same] at framed
  have joinedDescribed : (defaults decls (some registry)).schemaOf subject = .ok schema := described
  have joins : requestJoins (defaults decls (some registry)) schema.table [flt.path.head] [] =
      .ok ([clause], type.toList) := requestJoins_single dialect held valid made
  obtain ⟨joinedIff, joinedShape⟩ := joined_of_walk joinedDescribed path
    (fun n => narrow_joined found relation target held foundNext column) joins
  have none : requestJoins (defaults decls none) schema.table [] [] = .ok ([], Option.toList none) := rfl
  obtain ⟨nestedIff, nestedShape⟩ := joined_of_walk described path
    (fun n => narrow_nested found relation target framed foundNext column) none
  refine ⟨joinedIff.trans nestedIff.symm, ?_⟩
  intro joined nested joinedOk nestedOk
  have key : PlainKey {} := ⟨"ID", rfl, by decide⟩
  refine ⟨read_compileQuery key joinedOk, read_compileQuery key nestedOk, ?_⟩
  intro δ E db row
  obtain ⟨t, test, joinedIs⟩ := joinedShape joined joinedOk
  obtain ⟨_, test', nestedIs⟩ := nestedShape nested nestedOk
  cases test.symm.trans test'
  rw [List.flatten_singleton] at joinedIs
  rw [selects_joined_iff left follows made apart test joinedIs,
    selects_nested_iff framed outerRelated test (fun row scopes => value_of_site _ _ row scopes) nestedIs,
    same]
  constructor
  · rintro ⟨member, linked | ⟨⟨null, equal⟩, unjoined⟩⟩
    · exact .inl ⟨member, linked⟩
    · exact .inr ⟨null, equal, member, unjoined⟩
  · rintro (⟨member, linked⟩ | ⟨null, equal, member, unjoined⟩)
    · exact ⟨member, .inl linked⟩
    · exact ⟨member, .inr ⟨⟨null, equal⟩, unjoined⟩⟩

namespace Books

/-- Books with an author and with tags. -/
def declared : List EntityDecl :=
  [{ name := "Author", table := some "author", fields := [⟨"Name", .scalar .string, none⟩] },
    { name := "Tag", table := some "tag", fields := [⟨"Label", .scalar .string, none⟩] },
    { name := "Book", table := some "book", fields :=
      [⟨"Author", .entity "Author", none⟩,
        ⟨"Tags", .collection .list [.entity "Tag"], some { manyToMany := some "book_tag" }⟩] }]

/-- A book without an author. A row says that it has a tag, but there is none. -/
def stray : Database String
  | "book" => [row]
  | "book_tag" => [fun | "bookID" => some "1" | "tagID" => some "9" | _ => none]
  | _ => []

def unlabelled : Filter := ⟨"Tags.Label", .equal, "null"⟩

def byNobody : Filter := ⟨"Author.Name", .equal, "null"⟩

end Books

/-- Where the tags are joined, the book is found with a tag that has no label. -/
theorem selects_registered_iff_tags :
    ∃ schema registry joined nested,
      (defaults Books.declared none).schemaOf (.entity "Book") = .ok schema ∧
      Registry.ofSchema {} none schema [] = .ok registry ∧
      (compileQuery (defaults Books.declared (some registry)) true { filters := [Books.unlabelled] }
        (.entity "Book") none).result = .ok joined ∧
      (compileQuery (defaults Books.declared none) true { filters := [Books.unlabelled] }
        (.entity "Book") none).result = .ok nested ∧
      joined.Selects Books.engine Books.stray Books.row := by
  obtain ⟨schema, f, related, g, registry, described, found, relation, untagged, target, foundNext, column,
      registered, kind, through, outer, inner⟩ :
    ∃ schema f related g registry,
      (defaults Books.declared none).schemaOf (.entity "Book") = .ok schema ∧
      schema.get? Books.unlabelled.path.head = some f ∧ f.isRelation = true ∧ nonEmpty? f.join = none ∧
      ((defaults Books.declared none).related f).result = .ok related ∧
      related.get? "Label" = some g ∧ g.isRelation = false ∧
      Registry.ofSchema {} none schema [] = .ok registry ∧ f.relation = .manyToMany ∧
      f.manyToMany = some "book_tag" ∧ schema.table = "book" ∧ related.table = "tag" :=
    ⟨_, _, _, _, _, rfl, rfl, rfl, rfl, rfl, rfl, rfl, rfl, rfl, rfl, rfl, rfl⟩
  obtain ⟨nested, nestedOk⟩ : ∃ c, (compileQuery (defaults Books.declared none) true
      { filters := [Books.unlabelled] } (.entity "Book") none).result = .ok c := ⟨_, rfl⟩
  have apart : (Crossing.tables ⟨f, schema.table, related.table⟩).Nodup := by
    simp [Crossing.tables, kind, through, outer, inner]
  have both := @selects_registered_iff Books.declared true (.entity "Book") schema related registry
    Books.unlabelled "Label" f g described found relation untagged target rfl foundNext column registered
    apart
  obtain ⟨joined, joinedOk⟩ := both.1.mpr ⟨nested, nestedOk⟩
  refine ⟨schema, registry, joined, nested, described, registered, joinedOk, nestedOk, ?_⟩
  apply ((both.2 joined nested joinedOk nestedOk).2.2 Books.engine Books.stray Books.row).mpr
  refine .inr ⟨by decide, rfl, by rw [outer]; exact List.mem_singleton_self _, ?_⟩
  simp only [Unjoined, kind, outer, inner]
  refine ⟨"book_tag", through, .inr ⟨_, List.mem_singleton_self _, rfl, ?_⟩⟩
  intro t member
  cases member

/-- A book without an author is found by a null in the author's name only if the author is joined. -/
theorem selects_differ_books :
    ∃ schema registry joined nested,
      (defaults Books.declared none).schemaOf (.entity "Book") = .ok schema ∧
      Registry.ofSchema {} none schema [] = .ok registry ∧
      (compileQuery (defaults Books.declared (some registry)) true { filters := [Books.byNobody] }
        (.entity "Book") none).result = .ok joined ∧
      (compileQuery (defaults Books.declared none) true { filters := [Books.byNobody] }
        (.entity "Book") none).result = .ok nested ∧
      joined.Selects Books.engine Books.stray Books.row ∧
      ¬ nested.Selects Books.engine Books.stray Books.row := by
  refine ⟨_, _, _, _, rfl, rfl, rfl, rfl, ?_, ?_⟩
  · refine ⟨[("author", nullRow), ("book", Books.row)], List.mem_singleton_self _, rfl, ?_⟩
    rintro _ ⟨rfl⟩
    decide +kernel
  · rintro ⟨scopes, member, _, holds⟩
    cases List.mem_singleton.mp member
    exact absurd (holds _ rfl) (by decide +kernel)

end RowQuery.Compile
