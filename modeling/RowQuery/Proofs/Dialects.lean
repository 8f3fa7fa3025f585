import RowQuery.Proofs.Requoting

/-!
# Queries in both dialects

A query is compiled alike in both dialects: to the same error, or to parts that differ in the quotes
around names only. The compilers read a dialect's name to know whether there is such a dialect, and
nothing else; the quotes come in when the parts are written.
-/

namespace RowQuery.Compile

open RowQuery.Schema RowQuery.Sql RowQuery.Join

namespace Traced

variable {α β : Type}

/-- Computations have the same result if their first steps have and go on alike. -/
theorem result_bind_congr {x y : Traced α} {f g : α → Traced β} (first : x.result = y.result)
    (next : ∀ a, (f a).result = (g a).result) : (x >>= f).result = (y >>= g).result := by
  rw [result_bind, result_bind, first]
  exact congrArg _ (funext next)

theorem result_ite_congr {c : Prop} [Decidable c] {x y x' y' : Traced α} (yes : x.result = x'.result)
    (no : y.result = y'.result) :
    (if c then x else y).result = (if c then x' else y').result := by
  split
  · exact yes
  · exact no

/-- What is recorded does not matter to the result. -/
theorem result_note_congr (r r' : Log.Record) (x : Traced α) :
    (note r >>= fun _ => x).result = (note r' >>= fun _ => x).result := by
  rw [result_bind, result_bind, result_note, result_note]

theorem result_foldlM_congr {f g : β → α → Traced β} (step : ∀ b a, (f b a).result = (g b a).result)
    (b : β) (xs : List α) : (xs.foldlM f b).result = (xs.foldlM g b).result := by
  induction xs generalizing b with
  | nil => rfl
  | cons a xs ih => exact result_bind_congr (step b a) ih

theorem result_mapM_congr {f g : α → Traced β} (step : ∀ a, (f a).result = (g a).result)
    (xs : List α) : (xs.mapM f).result = (xs.mapM g).result := by
  rw [result_mapM, result_mapM]
  exact congrArg (fun h => xs.mapM h) (funext step)

/-- The same for computations whose results differ by a function. -/
theorem result_bind_map {x y : Traced α} {f g : α → Traced β} {change : β → β}
    (first : x.result = y.result) (next : ∀ a, (f a).result = (g a).result.map change) :
    (x >>= f).result = (y >>= g).result.map change := by
  rw [result_bind, result_bind, first]
  cases y.result with
  | error e => rfl
  | ok a => exact next a

theorem result_ite_map {c : Prop} [Decidable c] {x y x' y' : Traced α} {change : α → α}
    (yes : x.result = x'.result.map change) (no : y.result = y'.result.map change) :
    (if c then x else y).result = (if c then x' else y').result.map change := by
  split
  · exact yes
  · exact no

end Traced

open Traced

namespace Context

/-- A context whose names, those of its joins included, are written in a dialect. -/
def inDialect (d : Dialect) (ctx : Context) : Context :=
  { ctx with
    dialect := some d.name
    registry := ctx.registry.map fun r => { r with dialect := some d.name } }

variable (ctx : Context) (d d' : Dialect)

theorem style_inDialect : (ctx.inDialect d).style = d := by
  simp [style, inDialect, Dialect.style, Dialect.resolve_name]

theorem registered?_inDialect (walked : Option String) (name : String) :
    (ctx.inDialect d).registered? walked name = ctx.registered? walked name := by
  unfold registered? inDialect
  cases ctx.registry <;> rfl

theorem sortRegistry_inDialect :
    (ctx.inDialect d).sortRegistry = { ctx.sortRegistry with dialect := some d.name } := by
  unfold sortRegistry inDialect
  cases ctx.registry with
  | none => rfl
  | some r =>
    show (if r.isEmpty then _ else _) = _
    cases none : r.isEmpty with
    | true => simp [none]
    | false => simp [none]

theorem joinStyle_inDialect :
    (ctx.inDialect d).sortRegistry.style (ctx.inDialect d).settings = d := by
  simp [sortRegistry_inDialect, Registry.style, Dialect.style, Dialect.resolve_name]

end Context

section Results

variable (ctx : Context) (d d' : Dialect)

theorem expr_inDialect (f : Field) (table : Option String) (language : Detail) :
    (ctx.inDialect d).localizer.expr f table language = (ctx.inDialect d').localizer.expr f table language := by
  simp only [Localizer.expr, Localizer.column, Context.localizer, Context.inDialect, Dialect.resolve_name]
  rfl

theorem innerExpr_inDialect (entity path : String) (f : Field) (table : Option String)
    (rest : List String) :
    innerExpr (ctx.inDialect d) entity path f table rest =
      innerExpr (ctx.inDialect d') entity path f table rest := by
  simp only [innerExpr, Context.column, Context.inDialect, Dialect.resolve_name]
  rfl

theorem leafCondition_inDialect (flt : Filter) (f : Field) (table : Option String) :
    leafCondition (ctx.inDialect d) flt f table = leafCondition (ctx.inDialect d') flt f table := by
  have across : (ctx.inDialect d).localizer.anyLanguage f table flt =
      (ctx.inDialect d').localizer.anyLanguage f table flt := by
    simp only [Localizer.anyLanguage, Localizer.column, Context.localizer, Context.inDialect,
      Dialect.resolve_name]
    rfl
  simp only [leafCondition]
  rw [across, expr_inDialect ctx d d']
  rfl

theorem relationFrames_inDialect (f : Field) (outer related : String) :
    relationFrames ctx.settings (some d.name) f outer related =
      relationFrames ctx.settings (some d'.name) f outer related := by
  unfold relationFrames
  simp only [Dialect.resolve_name]
  rfl

theorem narrow_inDialect (flt : Filter) (rest : List String) (head : String) (site : Site) :
    (narrow (ctx.inDialect d) flt rest head site).result =
      (narrow (ctx.inDialect d') flt rest head site).result := by
  induction rest generalizing head site with
  | nil =>
    unfold narrow
    refine result_bind_congr rfl fun _ => result_bind_congr rfl fun f => result_ite_congr rfl ?_
    exact result_bind_congr (leafCondition_inDialect ctx d d' flt f _) fun _ => rfl
  | cons next more ih =>
    unfold narrow
    refine result_bind_congr rfl fun _ => result_bind_congr rfl fun f => result_ite_congr ?_ ?_
    · exact result_bind_congr (innerExpr_inDialect ctx d d' _ _ f _ _) fun _ => rfl
    · refine result_bind_congr rfl fun related => ?_
      rw [Context.registered?_inDialect, Context.registered?_inDialect]
      cases ctx.registered? site.walked head with
      | some entry => exact result_bind_congr (ih _ _) fun _ => rfl
      | none =>
        refine result_bind_congr (ih _ _) fun _ => ?_
        exact result_bind_congr (relationFrames_inDialect ctx d d' f _ _) fun _ => rfl

theorem compileFilters_inDialect (filters : List Filter) (subject : Subject) (table : Option String) :
    (compileFilters (ctx.inDialect d) filters subject table).result =
      (compileFilters (ctx.inDialect d') filters subject table).result := by
  unfold compileFilters
  refine result_bind_congr rfl fun schema => result_bind_congr ?_ fun found => ?_
  · exact result_mapM_congr (fun flt => narrow_inDialect ctx d d' flt _ _ _) filters
  · exact result_ite_congr (result_note_congr _ _ _) rfl

theorem searchRelation_inDialect (site : SearchSite) (f : Field) (related : Schema)
    {search search' : SearchSite → Traced SearchPart}
    (inner : ∀ site, (search site).result = (search' site).result) :
    (searchRelation (ctx.inDialect d) site f related search).result =
      (searchRelation (ctx.inDialect d') site f related search').result := by
  simp only [searchRelation, Context.registered?_inDialect]
  cases ctx.registered? site.walked f.name with
  | some entry => exact result_bind_congr (inner _) fun _ => rfl
  | none =>
    refine result_bind_congr (inner _) fun part => ?_
    cases part.alternatives with
    | nil => rfl
    | cons p ps => exact result_bind_congr (relationFrames_inDialect ctx d d' f _ _) fun _ => rfl

theorem searchColumn_inDialect (term : String) (site : SearchSite) (f : Field) :
    searchColumn (ctx.inDialect d) term site f = searchColumn (ctx.inDialect d') term site f := by
  unfold searchColumn
  rw [expr_inDialect ctx d d']

theorem searchField_inDialect (term : String) {budget : Nat}
    (inner : ∀ less < budget, ∀ site, (search (ctx.inDialect d) term less site).result =
      (search (ctx.inDialect d') term less site).result) (site : SearchSite) (f : Field) :
    (searchField (ctx.inDialect d) term budget site f).result =
      (searchField (ctx.inDialect d') term budget site f).result := by
  unfold searchField
  rw [searchColumn_inDialect ctx d d']
  refine result_ite_congr rfl (result_bind_congr rfl fun related => result_ite_congr rfl ?_)
  cases budget with
  | zero => rfl
  | succ less => exact searchRelation_inDialect ctx d d' site f related (inner less (by omega))

theorem search_inDialect (term : String) (budget : Nat) (site : SearchSite) :
    (search (ctx.inDialect d) term budget site).result =
      (search (ctx.inDialect d') term budget site).result := by
  induction budget using Nat.strongRecOn generalizing site with
  | ind budget ih =>
    rw [search_eq, search_eq]
    refine result_foldlM_congr (fun found f => result_bind_congr ?_ fun _ => rfl) _ _
    exact searchField_inDialect ctx d d' term ih site f

theorem compileSearch_inDialect (term : String) (subject : Subject) (table : Option String) :
    (compileSearch (ctx.inDialect d) term subject table).result =
      (compileSearch (ctx.inDialect d') term subject table).result := by
  unfold compileSearch
  refine result_ite_congr rfl (result_bind_congr rfl fun schema => ?_)
  refine result_bind_congr (search_inDialect ctx d d' term _ _) fun part => ?_
  exact result_ite_congr (result_note_congr _ _ _) rfl

theorem join_inDialect (r : Registry) (base : String) (config : Config) (inlined : Bool) :
    Registry.join ctx.settings { r with dialect := some d.name } base config inlined =
      Registry.join ctx.settings { r with dialect := some d'.name } base config inlined := by
  simp only [Registry.join, Dialect.resolve_name]
  rfl

theorem requestJoins_inDialect (table : String) (paths preloads : List String) :
    requestJoins (ctx.inDialect d) table paths preloads =
      requestJoins (ctx.inDialect d') table paths preloads := by
  unfold requestJoins Context.inDialect
  cases ctx.registry with
  | none => rfl
  | some r =>
    have joins : ∀ paths inlined,
        Registry.joins ctx.settings { r with dialect := some d.name } table paths inlined =
          Registry.joins ctx.settings { r with dialect := some d'.name } table paths inlined := by
      intro paths inlined
      unfold Registry.joins
      simp only [join_inDialect ctx d d']
      rfl
    simp only [Option.map_some, joins]

theorem joinedPreloads_inDialect (paths preloads : List String) :
    joinedPreloads (ctx.inDialect d) paths preloads = joinedPreloads ctx paths preloads := by
  unfold joinedPreloads Context.inDialect
  cases ctx.registry <;> rfl

theorem sortKey_inDialect (mode : SortMode) (name : String) (rest : List String) (head : String)
    (site : SortSite) :
    (sortKey (ctx.inDialect d) mode name rest head site).result =
      (sortKey (ctx.inDialect d') mode name rest head site).result := by
  induction rest generalizing head site with
  | nil =>
    unfold sortKey
    refine result_bind_congr rfl fun _ => result_bind_congr rfl fun f => result_ite_congr rfl ?_
    exact result_bind_congr (expr_inDialect ctx d d' f _ _) fun _ => rfl
  | cons next more ih =>
    unfold sortKey
    refine result_bind_congr rfl fun _ => result_bind_congr rfl fun f => result_ite_congr ?_ ?_
    · exact result_bind_congr (innerExpr_inDialect ctx d d' _ _ f _ _) fun _ => rfl
    · refine result_bind_congr rfl fun related => ?_
      simp only [Context.sortRegistry_inDialect, Registry.get?]
      -- Either way the relation is configured alike, and the walk goes on behind the same join.
      split <;> exact result_bind_congr rfl fun config => result_ite_congr
        (result_bind_congr rfl fun own => result_bind_congr (ih _ _) fun _ => rfl)
        (result_bind_congr (join_inDialect ctx d d' _ _ _ _) fun _ =>
          result_bind_congr rfl fun own => result_bind_congr (ih _ _) fun _ => rfl)

theorem compileSorts_inDialect (mode : SortMode) (sorts : List Sorting) (subject : Subject)
    (table : Option String) :
    (compileSorts (ctx.inDialect d) mode sorts subject table).result =
      (compileSorts (ctx.inDialect d') mode sorts subject table).result := by
  unfold compileSorts
  refine result_bind_congr rfl fun schema => result_bind_congr (result_mapM_congr (fun sort => ?_) sorts)
    fun found => result_ite_congr (result_note_congr _ _ _) rfl
  unfold sortTerm
  refine result_bind_congr ?_ fun _ => rfl
  rw [result_attempt, result_attempt, sortKey_inDialect ctx d d']

theorem selectList_inDialect (schema : Schema) (names : List String) (table : Option String)
    (language : Detail) :
    (ctx.inDialect d).localizer.selectList schema names table language =
      (ctx.inDialect d').localizer.selectList schema names table language := by
  simp only [Localizer.selectList, Localizer.selectItem, expr_inDialect ctx d d']

/-- A query in another dialect is compiled to the same parts, or refused for the same reason. -/
theorem compileQuery_inDialect (strict : Bool) (q : Query) (subject : Subject) (table : Option String) :
    (compileQuery (ctx.inDialect d') strict q subject table).result =
      (compileQuery (ctx.inDialect d) strict q subject table).result.map (Compiled.inDialect d') := by
  unfold compileQuery
  refine result_bind_map rfl fun schema => ?_
  refine result_bind_map (compileFilters_inDialect ctx d' d _ _ _) fun filters => ?_
  refine result_bind_map (compileSearch_inDialect ctx d' d _ _ _) fun search => ?_
  refine result_bind_map rfl fun _ => ?_
  simp only [joinedPreloads_inDialect]
  refine result_bind_map (requestJoins_inDialect ctx d' d _ _ _) fun joins => ?_
  refine result_bind_map (compileSorts_inDialect ctx d' d _ _ _ _) fun sorts => ?_
  simp only [selectList_inDialect ctx d' d, Context.style_inDialect, Context.joinStyle_inDialect]
  exact result_ite_map
    (result_bind_map rfl fun select => result_bind_map rfl fun level => result_bind_map rfl fun _ => rfl)
    (result_bind_map rfl fun select => result_bind_map rfl fun level => result_bind_map rfl fun _ => rfl)

end Results

/-! ## The results -/

/-- Outcomes that are the same error, or results that are related. -/
inductive SameOutcome {α : Type} (R : α → α → Prop) : Except Error α → Except Error α → Prop where
  | failed (e : Error) : SameOutcome R (.error e) (.error e)
  | done {a b : α} (related : R a b) : SameOutcome R (.ok a) (.ok b)

/-- Statements that bind the same values and are read alike. -/
def SameStatement (x y : Except Error (String × List Value)) : Prop :=
  ∃ s t args, x = .ok (s, args) ∧ y = .ok (t, args) ∧ ReadAlike s t

/-- Compiled queries that differ in the quotes around names only. -/
structure Compiled.Requoted (settings : Settings) (c c' : Compiled) : Prop where
  args : c.args = c'.args
  paths : c.paths = c'.paths
  preloads : c.preloads = c'.preloads
  offset : c.offset = c'.offset
  limit : c.limit = c'.limit
  condition : ReadAlike c.whereText c'.whereText
  order : ReadAlike c.orderText c'.orderText
  joins : List.Forall₂ ReadAlike c.joinTexts c'.joinTexts
  select : List.Forall₂ ReadAlike c.selectTexts c'.selectTexts
  statement : SameStatement (c.statement settings) (c'.statement settings)
  count : SameStatement (c.count settings) (c'.count settings)
  /-- What is written once in one dialect is written once in the other. -/
  joinsOnce : c.joinTexts.Nodup ∧ c'.joinTexts.Nodup
  discriminatorsOnce : (c.discriminators.map fun x => x.predicate.text c.joinStyle).Nodup ∧
    (c'.discriminators.map fun x => x.predicate.text c'.joinStyle).Nodup

/-- A relation is joined on qualified columns with quotes. -/
theorem Link.Written.quoted {settings : Settings} {inlined : Bool} {link : Link} {clause : JoinClause}
    (written : link.Written settings inlined clause) : ∀ j ∈ clause, j.Quoted := by
  have quoted : ∀ {type table base localKey other foreignKey} {x : Option Discriminator},
      (∀ y ∈ x, ∃ table name, y.column = .of table name) →
      JoinStep.Quoted ⟨type, table, .of base localKey, .of other foreignKey, x⟩ :=
    fun types => ⟨⟨_, _, rfl⟩, ⟨_, _, rfl⟩, types⟩
  obtain ⟨own, made, rfl⟩ := written
  generalize link.config.discriminator? = type at made ⊢
  cases made with
  | direct | pivot => cases inlined <;> simp [Registry.inline, quoted]
  | polymorphic => cases inlined <;> simp [Registry.inline, quoted]

namespace Stages.Yield

variable {ctx : Context} {strict : Bool} {q : Query} {subject : Subject} {table : Option String}
  {c : Compiled} {s : Stages}

/-- No join is written twice. -/
theorem nodup_joinTexts (yields : s.Yield ctx strict q subject table c) : c.joinTexts.Nodup := by
  have quoted : ∀ clause ∈ c.joins, ∀ j ∈ clause, j.Quoted := by
    intro clause member
    obtain ⟨link, joins⟩ := yields.link_of_mem_joins member
    cases joins with
    | used _ written => exact written.quoted
    | brought _ written => exact written.quoted
  refine List.Nodup.map_on ?_ yields.nodup_joins
  intro clause member clause' member' same
  exact JoinClause.eq_of_text_eq (quoted clause member) (quoted clause' member') same

end Stages.Yield

namespace Compiled

variable {settings : Settings} (d : Dialect) (c : Compiled)

theorem statement_inDialect : (c.inDialect d).statement settings =
    .ok (Token.print (c.inDialect d).statementTokens, c.args ++ c.pageArgs) := by
  simp only [statement, inDialect, Dialect.resolve_name]
  rfl

theorem count_inDialect {key : String} (named : settings.keyName = .ok key) :
    (c.inDialect d).count settings =
      .ok (Token.print ((c.inDialect d).countTokens (if c.joins.isEmpty then "" else key)), c.args) := by
  simp only [count, inDialect, Dialect.resolve_name, named]
  split <;> rfl

/-- A compiled query in another dialect differs in the quotes around names only. -/
theorem requoted_inDialect {d d' : Dialect} (key : PlainKey settings) (plain : (c.inDialect d).Plain)
    (joins : (c.inDialect d).joinTexts.Nodup ∧ (c.inDialect d').joinTexts.Nodup)
    (types : (c.discriminators.map fun x => x.predicate.text d).Nodup ∧
      (c.discriminators.map fun x => x.predicate.text d').Nodup) :
    Requoted settings (c.inDialect d) (c.inDialect d') := by
  have alike : ∀ {ts ts' : List Token} {n : Nat}, Marked ts n → ts.map (Token.requote d') = ts' →
      ReadAlike (Token.print ts) (Token.print ts') := by
    intro ts ts' n marked same
    rw [← same]
    exact readAlike_requote d' marked.legible
  have named : ∃ key, settings.keyName = .ok key := by
    obtain ⟨key, isText, _⟩ := key
    exact ⟨key, by rw [Settings.keyName, isText]; rfl⟩
  constructor
  case args | paths | preloads | offset | limit => rfl
  case condition => exact alike (marked_where plain) (requote_where d d' c)
  case order => exact alike (marked_order d plain.order) (requote_order d d' c.order)
  case joins =>
    refine List.forall₂_map_left_iff.mpr (List.forall₂_map_right_iff.mpr (List.forall₂_same.mpr ?_))
    intro clause member
    exact alike (JoinClause.marked d (plain.joins clause member)) (JoinClause.requote d d' clause)
  case select =>
    refine List.forall₂_map_left_iff.mpr (List.forall₂_map_right_iff.mpr (List.forall₂_same.mpr ?_))
    intro s member
    exact alike (SelectItem.marked d (plain.select s member)) (SelectItem.requote d d' s)
  case statement =>
    exact ⟨_, _, _, statement_inDialect d c, statement_inDialect d' c,
      alike (marked_statement plain) (requote_statement d d' c)⟩
  case count =>
    obtain ⟨key, named⟩ := named
    exact ⟨_, _, _, count_inDialect d c named, count_inDialect d' c named,
      alike (marked_count plain _) (requote_count d d' c _)⟩
  case joinsOnce => exact joins
  case discriminatorsOnce => exact types

end Compiled

/-- A query is compiled alike in both dialects: it is refused for the same reason, or compiled to parts that
    differ in the quotes around names only. -/
theorem compileQuery_requoted (ctx : Context) (d d' : Dialect) (strict : Bool) (q : Query)
    (subject : Subject) (table : Option String) (key : PlainKey ctx.settings) :
    SameOutcome (Compiled.Requoted ctx.settings)
      (compileQuery (ctx.inDialect d) strict q subject table).result
      (compileQuery (ctx.inDialect d') strict q subject table).result := by
  have other := compileQuery_inDialect ctx d d' strict q subject table
  cases outcome : (compileQuery (ctx.inDialect d) strict q subject table).result with
  | error e =>
    rw [other, outcome]
    exact .failed e
  | ok c =>
    have own : c = c.inDialect d := by
      have again := compileQuery_inDialect ctx d d strict q subject table
      rw [outcome] at again
      exact Except.ok.inj again
    rw [outcome] at other
    rw [other]
    obtain ⟨s, yields⟩ := compileQuery_eq_ok outcome
    obtain ⟨s', yields'⟩ := compileQuery_eq_ok other
    have plain := plain_compileQuery (show PlainKey (ctx.inDialect d).settings from key) outcome
    have joins := yields.nodup_joinTexts
    have types := yields.nodup_discriminators
    rw [own] at plain joins types
    refine .done ?_
    nth_rewrite 1 [own]
    exact c.requoted_inDialect key plain ⟨joins, yields'.nodup_joinTexts⟩
      ⟨types, yields'.nodup_discriminators⟩

theorem compileQuery_requoted_loans :
    PlainKey Books.remarking.settings ∧
      ∃ c c', (compileQuery (Books.remarking.inDialect .mysql) true Books.remarked (.entity "Loan")
          (some "a\x60b\x22c")).result = .ok c ∧
        (compileQuery (Books.remarking.inDialect .ansi) true Books.remarked (.entity "Loan")
          (some "a\x60b\x22c")).result = .ok c' ∧
        c.style = .mysql ∧ c'.style = .ansi ∧ c.table = "a\x60b\x22c" ∧ c.joins.length = 3 ∧
        Compiled.Requoted Books.remarking.settings c c' := by
  have key : PlainKey Books.remarking.settings := ⟨_, rfl, by decide⟩
  have same := compileQuery_requoted Books.remarking .mysql .ansi true Books.remarked (.entity "Loan")
    (some "a\x60b\x22c") key
  obtain ⟨c, ok, style, root, joins⟩ : ∃ c, (compileQuery (Books.remarking.inDialect .mysql) true
      Books.remarked (.entity "Loan") (some "a\x60b\x22c")).result = .ok c ∧ c.style = .mysql ∧
      c.table = "a\x60b\x22c" ∧ c.joins.length = 3 := ⟨_, rfl, rfl, rfl, rfl⟩
  obtain ⟨c', ok', style'⟩ : ∃ c, (compileQuery (Books.remarking.inDialect .ansi) true Books.remarked
      (.entity "Loan") (some "a\x60b\x22c")).result = .ok c ∧ c.style = .ansi := ⟨_, rfl, rfl⟩
  rw [ok, ok'] at same
  cases same with
  | done related => exact ⟨key, c, c', ok, ok', style, style', root, joins, related⟩

end RowQuery.Compile
