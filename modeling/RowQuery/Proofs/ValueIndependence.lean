import RowQuery.Proofs.Compilation
import RowQuery.Proofs.Legibility

/-!
# Values stay out of the text

Two queries that differ only in the values of their filters, in the term that they search for and in
how far they page are compiled to the same SQL. Two compilations are run side by side: as long as the
values agree on what they are asked about (whether they stand for null, and how many they are), every
step of one is matched by the same step of the other, and what comes out is written alike.
-/

namespace RowQuery

open RowQuery.Sql

/-- Filters that compare the same path in the same way, but may have other values. -/
structure Filter.Alike (a b : Filter) : Prop where
  name : a.name = b.name
  operation : a.operation = b.operation
  null : a.operation = .equal ∨ a.operation = .notEqual → isNullWord a.value = isNullWord b.value
  elements : a.operation.isList = true → a.rawValues.length = b.rawValues.length

/-- Queries that differ at most in the values of filters, in the term, and in how far they page. -/
structure Query.Alike (q r : Query) : Prop where
  filters : List.Forall₂ Filter.Alike q.filters r.filters
  term : q.term = "" ↔ r.term = ""
  sorts : q.sorts = r.sorts
  fields : q.fields = r.fields
  preloads : q.preloads = r.preloads
  offset : 0 < q.offset ↔ 0 < r.offset
  limit : 0 < q.limit ↔ 0 < r.limit

namespace Sql

/-- Conditions that are written alike in every dialect. -/
def Predicate.Alike (p q : Predicate) : Prop := ∀ d, p.tokens d = q.tokens d

variable {p q : Predicate} {ps qs : List Predicate}

theorem map_tokens_of_alike (alike : List.Forall₂ Predicate.Alike ps qs) (d : Dialect) :
    ps.map (·.tokens d) = qs.map (·.tokens d) := by
  induction alike with
  | nil => rfl
  | cons first rest ih => rw [List.map_cons, List.map_cons, first d, ih]

theorem connectedTokens_of_alike (alike : List.Forall₂ Predicate.Alike ps qs) (d : Dialect)
    (w : String) : connectedTokens d w ps = connectedTokens d w qs := by
  rw [connectedTokens, connectedTokens, map_tokens_of_alike alike]

theorem Predicate.Alike.nest (alike : p.Alike q) (frames : List Frame) :
    (Frame.nest frames p).Alike (Frame.nest frames q) := by
  intro d
  rw [Frame.tokens_nest, Frame.tokens_nest, alike d]

theorem Predicate.Alike.group (alike : p.Alike q) : (Predicate.group p).Alike (.group q) :=
  fun d => congrArg Token.bracketedSpaced (alike d)

theorem alike_anyOf (first : p.Alike q) (rest : List.Forall₂ Predicate.Alike ps qs) :
    (Predicate.anyOf p ps).Alike (.anyOf q qs) := by
  intro d
  rw [tokens_anyOf, tokens_anyOf, connectedTokens_of_alike (.cons first rest)]

end Sql

namespace Filter

/-- The tokens of a filter's test, of which the values do not decide more than whether they stand for
    null and how many they are. -/
def testTokens (flt : Filter) : List Token :=
  if flt.isNullTest then
    if flt.operation = .equal then Test.isNull.tokens else Test.isNotNull.tokens
  else if flt.operation.isList then
    [.space, .word "IN", .space] ++
      Token.bracketed ((List.replicate flt.rawValues.length Token.placeholder).intersperse (.symbol ","))
  else [.space, flt.operation.comparison.token, .space, .placeholder]

theorem Tested.tokens_eq {flt : Filter} {kind : Option ColumnKind} {t : Test}
    (tested : flt.Tested kind t) : t.tokens = flt.testTokens := by
  unfold testTokens
  cases tested with
  | isNull operation word =>
    rw [if_pos (isNullTest_of_isNullWord (.inl operation) word), if_pos operation]
  | isNotNull operation word =>
    rw [if_pos (isNullTest_of_isNullWord (.inr operation) word), if_neg (by simp [operation])]
  | oneOf list read =>
    rw [isNullTest_of_isList list, if_neg (by simp), if_pos list, Test.tokens, List.map_const',
      read.length_eq]
  | compare bound single read =>
    rw [bound, single, if_neg (by simp), if_neg (by simp), Test.tokens]

namespace Alike

variable {a b : Filter}

theorem isNullTest_eq (alike : a.Alike b) : a.isNullTest = b.isNullTest := by
  unfold isNullTest
  rw [← alike.operation]
  by_cases asks : a.operation = .equal ∨ a.operation = .notEqual
  · rw [alike.null asks]
  · obtain ⟨notEqual, notOther⟩ := not_or.mp asks
    simp [notEqual, notOther]

theorem length_eq (alike : a.Alike b) : a.rawValues.length = b.rawValues.length := by
  cases list : a.operation.isList with
  | true => exact alike.elements list
  | false =>
    rw [rawValues_of_single list, rawValues_of_single (alike.operation ▸ list)]
    rfl

theorem testTokens_eq (alike : a.Alike b) : a.testTokens = b.testTokens := by
  rw [testTokens, testTokens, alike.isNullTest_eq, alike.operation, alike.length_eq]

end Alike

end Filter

namespace Compile

open RowQuery.Schema RowQuery.Sql RowQuery.Join

/-! ## Filters -/

/-- The tokens of a filter's condition on a column that is compared in all languages at once. -/
def acrossTokens (d : Dialect) (c : Column) (flt : Filter) : List Token :=
  if flt.isNullTest then c.tokens d ++ flt.testTokens
  else if flt.operation.isList then
    Token.bracketedSpaced (Token.joined (Token.spaced "OR")
      (List.replicate flt.rawValues.length ((Predicate.anyLanguage c true "").tokens d)))
  else (Predicate.anyLanguage c (flt.operation != .notEqual) "").tokens d

theorem acrossTokens_of_alike {a b : Filter} (alike : a.Alike b) (d : Dialect) (c : Column) :
    acrossTokens d c a = acrossTokens d c b := by
  rw [acrossTokens, acrossTokens, alike.isNullTest_eq, alike.operation, alike.length_eq,
    alike.testTokens_eq]

/-- The condition on a column that is compared in all languages has the tokens of the filter. -/
theorem LeafCondition.tokens_across {ctx : Context} {flt : Filter} {f : Field} {table : Option String}
    {p : Predicate} (leaf : LeafCondition ctx flt f table p) (across : ctx.acrossLanguages f = true)
    (d : Dialect) : p.tokens d = acrossTokens d { table, name := f.column } flt := by
  unfold acrossTokens
  cases leaf with
  | tested single expr test => rw [across] at single; cases single
  | isNull _ operation word =>
    rw [if_pos (Filter.isNullTest_of_isNullWord (.inl operation) word),
      ← (Filter.Tested.isNull operation word : flt.Tested none _).tokens_eq]
    rfl
  | isNotNull _ operation word =>
    rw [if_pos (Filter.isNullTest_of_isNullWord (.inr operation) word),
      ← (Filter.Tested.isNotNull operation word : flt.Tested none _).tokens_eq]
    rfl
  | like _ operation => simp [Filter.isNullTest, operation, Operation.isList, Operation.separator?,
      Predicate.tokens]
  | equal _ operation value => simp [Filter.isNullTest, operation, value, Operation.isList,
      Operation.separator?, Predicate.tokens]
  | notEqual _ operation value => simp [Filter.isNullTest, operation, value, Operation.isList,
      Operation.separator?, Predicate.tokens]
  | oneOf _ list values =>
    rw [Filter.isNullTest_of_isList list, if_neg (by simp), if_pos list, values]
    show Token.bracketedSpaced ((Predicate.anyOf _ _).tokens d) = _
    rw [tokens_anyOf, connectedTokens, List.map_cons, List.map_map, List.length_cons,
      List.replicate_succ, ← List.map_const']
    rfl

/-- Filters that are alike have conditions that are alike on any column. -/
theorem alike_leafCondition {ctx : Context} {a b : Filter} (alike : a.Alike b) {f : Field}
    {table : Option String} {p q : Predicate} (left : leafCondition ctx a f table = .ok p)
    (right : leafCondition ctx b f table = .ok q) : p.Alike q := by
  intro d
  have first := leafCondition_eq_ok left
  have second := leafCondition_eq_ok right
  cases across : ctx.acrossLanguages f with
  | true => rw [first.tokens_across across, second.tokens_across across, acrossTokens_of_alike alike]
  | false =>
    obtain ⟨lhs, t, expr, test, rfl⟩ : ∃ lhs t, ctx.localizer.expr f table .null = .ok lhs ∧
        a.test (if f.translated then some .string else f.kind) = .ok t ∧ p = .test lhs t := by
      cases first <;> simp_all
    obtain ⟨lhs', u, expr', test', rfl⟩ : ∃ lhs t, ctx.localizer.expr f table .null = .ok lhs ∧
        b.test (if f.translated then some .string else f.kind) = .ok t ∧ q = .test lhs t := by
      cases second <;> simp_all
    cases expr.symm.trans expr'
    rw [Predicate.tokens, Predicate.tokens, (Filter.tested_of_test test).tokens_eq,
      (Filter.tested_of_test test').tokens_eq, alike.testTokens_eq]

/-- Walks of filters that are alike take the same steps. -/
theorem alike_narrowed {ctx : Context} {a b : Filter} (alike : a.Alike b) {rest : List String}
    {head : String} {site : Site} {n m : Narrowing} (left : Narrowed ctx a rest head site n)
    (right : Narrowed ctx b rest head site m) :
    n.condition.Alike m.condition ∧ n.paths = m.paths := by
  -- Fields, schemas and registered joins are found by name, so the second walk has no other step than
  -- that of the first; only the conditions at the end look at values.
  induction left generalizing m with
  | leaf _ found column condition =>
    rw [alike.name] at found
    cases right with
    | leaf _ found' _ condition' =>
      cases found.symm.trans found'
      exact ⟨alike_leafCondition alike condition condition', rfl⟩
  | inner _ found column expr test =>
    rw [alike.name] at found expr
    cases right with
    | inner _ found' _ expr' test' =>
      cases found.symm.trans found'
      cases expr.symm.trans expr'
      refine ⟨fun d => ?_, rfl⟩
      rw [Predicate.tokens, Predicate.tokens, (Filter.tested_of_test test).tokens_eq,
        (Filter.tested_of_test test').tokens_eq, alike.testTokens_eq]
    | joined _ found' relation | nested _ found' relation =>
      cases found.symm.trans found'
      rw [column] at relation
      cases relation
  | joined _ found relation target registered _ ih =>
    rw [alike.name] at found
    cases right with
    | inner _ found' column =>
      cases found.symm.trans found'
      rw [relation] at column
      cases column
    | joined _ found' _ target' registered' rest' =>
      cases found.symm.trans found'
      cases target.symm.trans target'
      cases registered.symm.trans registered'
      obtain ⟨conditions, paths⟩ := ih rest'
      exact ⟨conditions, congrArg (_ :: ·) paths⟩
    | nested _ _ _ _ unregistered => cases registered.symm.trans unregistered
  | nested _ found relation target unregistered _ framed ih =>
    rw [alike.name] at found
    cases right with
    | inner _ found' column =>
      cases found.symm.trans found'
      rw [relation] at column
      cases column
    | joined _ _ _ _ registered => cases unregistered.symm.trans registered
    | nested _ found' _ target' _ rest' framed' =>
      cases found.symm.trans found'
      cases target.symm.trans target'
      cases framed.symm.trans framed'
      obtain ⟨conditions, paths⟩ := ih rest'
      exact ⟨conditions.nest _, paths⟩

/-- Narrowings that are alike, one by one, for filters that are alike. -/
theorem alike_narrowings {ctx : Context} {site : Site} {fs gs : List Filter} {ns ms : List Narrowing}
    (alike : List.Forall₂ Filter.Alike fs gs)
    (left : List.Forall₂ (fun flt n =>
      (narrow ctx flt flt.path.rest flt.path.head site).result = .ok n) fs ns)
    (right : List.Forall₂ (fun flt n =>
      (narrow ctx flt flt.path.rest flt.path.head site).result = .ok n) gs ms) :
    List.Forall₂ Predicate.Alike (ns.map (·.condition)) (ms.map (·.condition)) ∧
      ns.flatMap (·.paths) = ms.flatMap (·.paths) := by
  induction alike generalizing ns ms with
  | nil =>
    cases left
    cases right
    exact ⟨.nil, rfl⟩
  | cons first _ ih =>
    cases left with
    | cons walked restLeft =>
      cases right with
      | cons walked' restRight =>
        rw [Filter.path, ← first.name] at walked'
        obtain ⟨conditions, paths⟩ :=
          alike_narrowed first (narrowed_of_narrow walked) (narrowed_of_narrow walked')
        obtain ⟨more, morePaths⟩ := ih restLeft restRight
        refine ⟨.cons conditions more, ?_⟩
        rw [List.flatMap_cons, List.flatMap_cons, paths, morePaths]

theorem alike_compileFilters {ctx : Context} {fs gs : List Filter} {subject : Subject}
    {table : Option String} {left right : FilterPart} (alike : List.Forall₂ Filter.Alike fs gs)
    (first : (compileFilters ctx fs subject table).result = .ok left)
    (second : (compileFilters ctx gs subject table).result = .ok right) :
    List.Forall₂ Predicate.Alike left.conditions right.conditions ∧ left.paths = right.paths := by
  obtain ⟨schema, ns, described, walked, rfl⟩ := compileFilters_eq_ok.mp first
  obtain ⟨schema', ms, described', walked', rfl⟩ := compileFilters_eq_ok.mp second
  cases described.symm.trans described'
  obtain ⟨conditions, paths⟩ := alike_narrowings alike walked walked'
  exact ⟨conditions, congrArg (Text.mergeNew []) paths⟩

/-! ## Search -/

/-- Searches that found alternatives that are alike, behind the same paths. -/
structure SearchPart.Alike (s t : SearchPart) : Prop where
  alternatives : List.Forall₂ Predicate.Alike s.alternatives t.alternatives
  paths : s.paths = t.paths

namespace SearchPart.Alike

theorem append {s t s' t' : SearchPart} (first : s.Alike t) (second : s'.Alike t') :
    (s.append s').Alike (t.append t') :=
  ⟨List.rel_append first.alternatives second.alternatives, by
    rw [SearchPart.append, SearchPart.append, first.paths, second.paths]⟩

theorem behindPath {s t : SearchPart} (alike : s.Alike t) (path : String) :
    (s.behindPath path).Alike (t.behindPath path) := by
  constructor
  · rw [alternatives_behindPath, alternatives_behindPath]
    exact alike.alternatives
  · rw [SearchPart.behindPath, SearchPart.behindPath, isEmpty_of_forall₂ alike.alternatives]
    split
    · exact alike.paths
    · exact congrArg (Text.mergeNew [path]) alike.paths

end SearchPart.Alike

theorem alike_alternativesCondition (f : Field) {p q : Predicate} {ps qs : List Predicate}
    (first : p.Alike q) (rest : List.Forall₂ Predicate.Alike ps qs) :
    (alternativesCondition f p ps).Alike (alternativesCondition f q qs) := by
  have all := alike_anyOf first rest
  rw [alternativesCondition, alternativesCondition, isEmpty_of_forall₂ rest]
  split
  · exact all.group
  · exact all

/-- Searches through the same fields find what is alike, whatever they look for. -/
theorem alike_searched {ctx : Context} {term term' : String} {budget : Nat} {site : SearchSite}
    {fields : List Field} {found found' last last' : SearchPart}
    (left : Searched ctx term budget site fields found last)
    (right : Searched ctx term' budget site fields found' last') (before : found.Alike found') :
    last.Alike last' := by
  -- What was found before is carried along, since whether there is an alternative decides on brackets
  -- and paths.
  induction left generalizing found' last' with
  | done =>
    cases right
    exact before
  | column plain searched _ ih =>
    cases right with
    | column _ searched' rest' =>
      obtain ⟨lhs, expr, rfl⟩ := searchColumn_eq_ok searched
      obtain ⟨lhs', expr', rfl⟩ := searchColumn_eq_ok searched'
      cases expr.symm.trans expr'
      exact ih rest' (before.append ⟨.cons (fun _ => rfl) .nil, rfl⟩)
    | joined relation | barren relation | nested relation =>
      rw [plain] at relation
      cases relation
  | joined relation target _ registered _ _ ihBehind ih =>
    cases right with
    | column plain =>
      rw [relation] at plain
      cases plain
    | joined _ target' _ registered' behind' rest' =>
      cases target.symm.trans target'
      cases registered.symm.trans registered'
      have inner := ihBehind behind' ⟨.nil, rfl⟩
      exact ih rest' (before.append (inner.behindPath _))
    | barren _ _ _ unregistered | nested _ _ _ unregistered =>
      cases registered.symm.trans unregistered
  | barren relation target _ unregistered _ _ ihBehind ih =>
    cases right with
    | column plain =>
      rw [relation] at plain
      cases plain
    | joined _ _ _ registered => cases unregistered.symm.trans registered
    | barren _ target' _ _ behind' rest' =>
      cases target.symm.trans target'
      exact ih rest' (before.append (ihBehind behind' ⟨.nil, rfl⟩))
    | nested _ target' _ _ behind' =>
      cases target.symm.trans target'
      cases (ihBehind behind' ⟨.nil, rfl⟩).alternatives
  | nested relation target _ unregistered _ framed _ ihBehind ih =>
    cases right with
    | column plain =>
      rw [relation] at plain
      cases plain
    | joined _ _ _ registered => cases unregistered.symm.trans registered
    | barren _ target' _ _ behind' =>
      cases target.symm.trans target'
      cases (ihBehind behind' ⟨.nil, rfl⟩).alternatives
    | nested _ target' _ _ behind' framed' rest' =>
      cases target.symm.trans target'
      cases framed.symm.trans framed'
      obtain ⟨alternatives, paths⟩ := ihBehind behind' ⟨.nil, rfl⟩
      cases alternatives with
      | cons first more =>
        refine ih rest' (before.append ⟨.cons ?_ .nil, paths⟩)
        exact (alike_alternativesCondition _ first more).nest _

theorem alike_compileSearch {ctx : Context} {term term' : String} (empty : term = "" ↔ term' = "")
    {subject : Subject} {table : Option String} {left right : SearchPart}
    (first : (compileSearch ctx term subject table).result = .ok left)
    (second : (compileSearch ctx term' subject table).result = .ok right) : left.Alike right := by
  rcases compileSearch_eq_ok first with ⟨none, rfl⟩ | ⟨some, schema, described, searched⟩
  · rcases compileSearch_eq_ok second with ⟨_, rfl⟩ | ⟨some, _⟩
    · exact ⟨.nil, rfl⟩
    · exact absurd (empty.mp none) some
  · rcases compileSearch_eq_ok second with ⟨none, _⟩ | ⟨_, schema', described', searched'⟩
    · exact absurd (empty.mpr none) some
    · cases described.symm.trans described'
      exact alike_searched searched searched' ⟨.nil, rfl⟩

/-! ## Whole queries -/

namespace Compiled

/-- Compiled queries that differ at most in values. -/
structure Alike (c c' : Compiled) : Prop where
  table : c.table = c'.table
  filters : List.Forall₂ Predicate.Alike c.filters c'.filters
  search : List.Forall₂ Predicate.Alike c.search c'.search
  discriminators : c.discriminators = c'.discriminators
  order : c.order = c'.order
  select : c.select = c'.select
  joins : c.joins = c'.joins
  paths : c.paths = c'.paths
  offset : 0 < c.offset ↔ 0 < c'.offset
  limit : 0 < c.limit ↔ 0 < c'.limit
  requested : c.requested = c'.requested
  style : c.style = c'.style
  joinStyle : c.joinStyle = c'.joinStyle

namespace Alike

variable {c c' : Compiled}

theorem conditionTokens_eq (alike : c.Alike c') : c.conditionTokens = c'.conditionTokens := by
  simp only [conditionTokens, SearchPart.tokens, connectedTokens_of_alike alike.filters,
    connectedTokens_of_alike alike.search, isEmpty_of_forall₂ alike.filters,
    isEmpty_of_forall₂ alike.search, alike.search.length_eq, alike.discriminators, alike.style,
    alike.joinStyle]

theorem whereTokens_eq (alike : c.Alike c') : c.whereTokens = c'.whereTokens :=
  congrArg (Token.joined (Token.spaced "AND")) alike.conditionTokens_eq

theorem fromTokens_eq (alike : c.Alike c') : c.fromTokens = c'.fromTokens := by
  rw [fromTokens, fromTokens, alike.style, alike.table, alike.joins, alike.joinStyle,
    alike.conditionTokens_eq, alike.whereTokens_eq]

theorem pageTokens_eq (alike : c.Alike c') : c.pageTokens = c'.pageTokens := by
  have paged : c.isPaged = c'.isPaged := by
    rw [isPaged, isPaged, decide_eq_decide.mpr alike.limit, decide_eq_decide.mpr alike.offset]
  rw [pageTokens, pageTokens, paged, if_congr alike.offset rfl rfl]

theorem statementTokens_eq (alike : c.Alike c') : c.statementTokens = c'.statementTokens := by
  simp only [statementTokens, projectionTokens, alike.select, alike.style, alike.joins, alike.table,
    alike.order, alike.fromTokens_eq, alike.pageTokens_eq]

theorem countTokens_eq (alike : c.Alike c') (key : String) : c.countTokens key = c'.countTokens key := by
  simp only [countTokens, alike.joins, alike.table, alike.style, alike.fromTokens_eq]

theorem statement_eq (alike : c.Alike c') (settings : Settings) :
    (c.statement settings).map (·.1) = (c'.statement settings).map (·.1) := by
  rw [statement, statement, alike.requested, alike.statementTokens_eq]
  cases Dialect.resolve settings c'.requested <;> rfl

theorem count_eq (alike : c.Alike c') (settings : Settings) :
    (c.count settings).map (·.1) = (c'.count settings).map (·.1) := by
  simp only [count, alike.requested, alike.joins, alike.countTokens_eq]
  cases Dialect.resolve settings c'.requested with
  | error e => rfl
  | ok d =>
    cases c'.joins.isEmpty with
    | true => rfl
    | false => cases settings.keyName <;> rfl

end Alike

end Compiled

/-- Queries that are alike are compiled to queries that are alike: once the paths of filters and
    search agree, nothing else depends on the values. -/
theorem alike_compileQuery {ctx : Context} {strict : Bool} {q r : Query} {subject : Subject}
    {table : Option String} {c c' : Compiled} (alike : q.Alike r)
    (left : (compileQuery ctx strict q subject table).result = .ok c)
    (right : (compileQuery ctx strict r subject table).result = .ok c') : c.Alike c' := by
  obtain ⟨s, first⟩ := compileQuery_eq_ok left
  obtain ⟨t, second⟩ := compileQuery_eq_ok right
  have schema : s.schema = t.schema := Except.ok.inj (first.schema.symm.trans second.schema)
  have filters := first.filters
  have search := first.search
  have joins := first.joins
  have sorts := first.sorts
  have select := first.select
  rw [schema] at filters search joins sorts select
  obtain ⟨conditions, filterPaths⟩ := alike_compileFilters alike.filters filters second.filters
  obtain ⟨alternatives, searchPaths⟩ := alike_compileSearch alike.term search second.search
  have paths : s.paths = t.paths := by rw [Stages.paths, Stages.paths, filterPaths, searchPaths]
  have preloads : s.preloads ctx q = t.preloads ctx r := by
    rw [Stages.preloads, Stages.preloads, paths, alike.preloads]
  rw [paths, preloads] at joins
  rw [paths, alike.sorts] at sorts
  rw [alike.fields] at select
  obtain ⟨sameJoins, sameDiscriminators⟩ :=
    Prod.mk.inj (Except.ok.inj (joins.symm.trans second.joins))
  have sameSorts : s.sorts = t.sorts := Except.ok.inj (sorts.symm.trans second.sorts)
  have sameSelect : s.select = t.select := Except.ok.inj (select.symm.trans second.select)
  rw [first.compiled, second.compiled]
  exact {
    table := congrArg (rootTable · table) schema
    filters := conditions, search := alternatives, discriminators := sameDiscriminators
    order := congrArg (·.terms) sameSorts, select := sameSelect
    joins := by rw [sameJoins, sameSorts]
    paths := by rw [paths, preloads]
    offset := alike.offset, limit := alike.limit, requested := rfl, style := rfl, joinStyle := rfl }

/-- Values have no part in the SQL: two queries that differ only in the values of filters, in the term
    and in how far they page are compiled to the same condition, order, selection, joins and paths, and
    to the same statements. -/
theorem compileQuery_texts_eq {ctx : Context} {strict : Bool} {q r : Query} {subject : Subject}
    {table : Option String} {c c' : Compiled} (alike : q.Alike r)
    (left : (compileQuery ctx strict q subject table).result = .ok c)
    (right : (compileQuery ctx strict r subject table).result = .ok c') :
    c.whereText = c'.whereText ∧ c.orderText = c'.orderText ∧ c.selectTexts = c'.selectTexts ∧
      c.joinTexts = c'.joinTexts ∧ c.paths = c'.paths ∧
      (c.statement ctx.settings).map (·.1) = (c'.statement ctx.settings).map (·.1) ∧
      (c.count ctx.settings).map (·.1) = (c'.count ctx.settings).map (·.1) := by
  have same := alike_compileQuery alike left right
  refine ⟨congrArg Token.print same.whereTokens_eq, ?_, ?_, ?_, same.paths,
    same.statement_eq ctx.settings, same.count_eq ctx.settings⟩
  · rw [Compiled.orderText, Compiled.orderText, same.style, same.order]
  · rw [Compiled.selectTexts, Compiled.selectTexts, same.style, same.select]
  · rw [Compiled.joinTexts, Compiled.joinTexts, same.joinStyle, same.joins]

/-- A harmless request, and one whose values are written like SQL. -/
def Books.harmless : Query :=
  { term := "x", filters := [⟨"Title", .equal, "Emma"⟩, ⟨"Tags.Label", .oneOf, "a|b"⟩], limit := 10 }

def Books.hostile : Query :=
  { term := "') OR 1 = 1 -- "
    filters := [⟨"Title", .equal, "' OR ''='"⟩, ⟨"Tags.Label", .oneOf, "?) -- |`"⟩], limit := 1 }

theorem compileQuery_texts_eq_books :
    ∃ c c', (compileQuery Books.context true Books.harmless (.entity "Book") none).result = .ok c ∧
      (compileQuery Books.context true Books.hostile (.entity "Book") none).result = .ok c' ∧
      Books.harmless.Alike Books.hostile ∧ c.whereText = c'.whereText ∧
      (c.statement {}).map (·.1) = (c'.statement {}).map (·.1) ∧ c.args ≠ c'.args := by
  have left : (compileQuery Books.context true Books.harmless (.entity "Book") none).result =
    .ok _ := rfl
  have right : (compileQuery Books.context true Books.hostile (.entity "Book") none).result =
    .ok _ := rfl
  have alike : Books.harmless.Alike Books.hostile := by
    refine ⟨.cons ⟨rfl, rfl, fun _ => by decide, fun _ => rfl⟩
      (.cons ⟨rfl, rfl, fun _ => by decide, fun _ => rfl⟩ .nil), ?_, rfl, rfl, rfl, ?_, ?_⟩ <;> decide
  obtain ⟨condition, _, _, _, _, statement, _⟩ := compileQuery_texts_eq alike left right
  exact ⟨_, _, left, right, alike, condition, statement, by decide +kernel⟩

end Compile

end RowQuery
