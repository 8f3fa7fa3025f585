import RowQuery.Proofs.RegisteredPaths

/-!
# The relations that are joined

Every join of a compiled query is that of a relation which its filters or its search go through, which it
preloads, or which one of its sorts crosses. The first are joined from the root table with their
discriminators apart. The others are joined only where filters and search have not joined them already,
with their discriminators in the clause: a preloaded one from the root table, one that a sort crosses from
the table that was reached before it.
-/

namespace RowQuery.Join

open RowQuery.Sql

/-- The discriminator that goes with a configuration. -/
def Config.discriminator? (config : Config) : Option Discriminator :=
  match config.plan with
  | .polymorphic _ typeColumn value => some { column := .of config.table typeColumn, value }
  | _ => none

/-- The tables that a configuration brings in. -/
def Config.tables (config : Config) : List String :=
  match config.plan with
  | .pivot pivot _ _ => [pivot, config.table]
  | _ => [config.table]

end RowQuery.Join

namespace RowQuery.Compile

open RowQuery.Schema RowQuery.Sql RowQuery.Join

section Claused

variable {settings : Settings} {base : String} {config : Config} {clause : JoinClause}
  {type : Option Discriminator}

theorem Claused.discriminator_eq (made : Claused settings base config clause type) :
    type = config.discriminator? := by
  unfold Config.discriminator?
  cases made with
  | direct plan | pivot plan named | polymorphic plan named => simp [plan]

theorem Claused.tables_eq (made : Claused settings base config clause type) :
    clause.map (·.table) = config.tables := by
  unfold Config.tables
  cases made with
  | direct plan | pivot plan named | polymorphic plan named => simp [plan]

end Claused

/-- A relation that is joined: its path, the table that it is joined from, and its configuration. -/
@[ext]
structure Link where
  path : String
  base : String
  config : Config
  deriving DecidableEq, Repr

/-- A clause joins a relation, with the discriminator in it or apart. -/
def Link.Written (settings : Settings) (inlined : Bool) (link : Link) (clause : JoinClause) : Prop :=
  ∃ own, Claused settings link.base link.config own link.config.discriminator? ∧
    clause = if inlined then Registry.inline own link.config.discriminator? else own

namespace Link.Written

variable {settings : Settings} {inlined : Bool} {link : Link} {clause clause' : JoinClause}

theorem unique (first : link.Written settings inlined clause)
    (second : link.Written settings inlined clause') : clause' = clause := by
  obtain ⟨own, made, rfl⟩ := first
  obtain ⟨other, remade, rfl⟩ := second
  rw [(made.unique remade).1]

theorem tables_eq (written : link.Written settings inlined clause) :
    clause.map (·.table) = link.config.tables := by
  obtain ⟨own, made, rfl⟩ := written
  cases inlined with
  | false => exact made.tables_eq
  | true =>
    rw [if_pos rfl, map_table_inline]
    exact made.tables_eq

theorem type_eq (written : link.Written settings inlined clause) :
    ∀ j ∈ clause, j.type = link.config.joinType := by
  obtain ⟨own, made, rfl⟩ := written
  cases inlined with
  | false => exact made.type_eq
  | true =>
    intro j member
    have inside := List.mem_map_of_mem (f := (·.type)) member
    rw [if_pos rfl, map_inline (fun _ _ => rfl)] at inside
    obtain ⟨k, inOwn, same⟩ := List.mem_map.mp inside
    rw [← same]
    exact made.type_eq k inOwn

end Link.Written

/-- What a registry joins is the clause of the relation. -/
theorem written_of_join {settings : Settings} {r : Registry} {base : String} {config : Config}
    {inlined : Bool} {x : JoinClause × Option Discriminator} (path : String)
    (ok : r.join settings base config inlined = .ok x) :
    Link.Written settings inlined ⟨path, base, config⟩ x.1 ∧
      x.2 = if inlined then none else config.discriminator? := by
  obtain ⟨_, _, clause, type, made, rfl⟩ := join_eq_ok.mp ok
  obtain rfl := made.discriminator_eq
  cases inlined with
  | false => exact ⟨⟨clause, made, rfl⟩, rfl⟩
  | true => exact ⟨⟨clause, made, rfl⟩, rfl⟩

/-! ## Registered paths -/

section Joins

variable {settings : Settings} {r : Registry} {base : String} {paths : List String} {inlined : Bool}
  {clauses : List JoinClause} {types : List Discriminator}

/-- Every path that a registry joins is registered and has a clause. -/
theorem exists_clause_of_joins (ok : r.joins settings base paths inlined = .ok (clauses, types))
    {path : String} (member : path ∈ paths) : ∃ config, r.get? path = some config ∧
      ∃ clause ∈ clauses, Link.Written settings inlined ⟨path, base, config⟩ clause := by
  obtain ⟨found, each, rfl, _⟩ := joins_eq_ok.mp ok
  obtain ⟨x, inFound, config, known, join⟩ :=
    exists_left_of_forall₂ (List.Forall₂.flip (R := flip _) each) member
  refine ⟨config, known, x.1, ?_, (written_of_join _ join).1⟩
  exact Text.mem_mergeNew.mpr (.inr (List.mem_map.mpr ⟨x, inFound, rfl⟩))

/-- Every clause of a registry is that of one of the paths. -/
theorem exists_path_of_joins (ok : r.joins settings base paths inlined = .ok (clauses, types))
    {clause : JoinClause} (member : clause ∈ clauses) : ∃ path ∈ paths, ∃ config,
      r.get? path = some config ∧ Link.Written settings inlined ⟨path, base, config⟩ clause := by
  obtain ⟨found, each, rfl, _⟩ := joins_eq_ok.mp ok
  simp only [Text.mem_mergeNew, List.not_mem_nil, false_or, List.mem_map] at member
  obtain ⟨x, inFound, rfl⟩ := member
  obtain ⟨path, inPaths, config, known, join⟩ := exists_left_of_forall₂ each inFound
  exact ⟨path, inPaths, config, known, (written_of_join _ join).1⟩

/-- The discriminators that a registry gives apart are those of the paths. -/
theorem mem_types_of_joins (ok : r.joins settings base paths false = .ok (clauses, types))
    {x : Discriminator} : x ∈ types ↔ ∃ path ∈ paths, ∃ config,
      r.get? path = some config ∧ config.discriminator? = some x := by
  obtain ⟨found, each, _, rfl⟩ := joins_eq_ok.mp ok
  simp only [Text.mem_mergeNew, List.not_mem_nil, false_or, List.mem_filterMap]
  constructor
  · rintro ⟨y, inFound, isType⟩
    obtain ⟨path, inPaths, config, known, join⟩ := exists_left_of_forall₂ each inFound
    refine ⟨path, inPaths, config, known, ?_⟩
    rw [← isType, (written_of_join path join).2, if_neg Bool.false_ne_true]
  · rintro ⟨path, inPaths, config, known, isType⟩
    obtain ⟨y, inFound, other, same, join⟩ :=
      exists_left_of_forall₂ (List.Forall₂.flip (R := flip _) each) inPaths
    cases same.symm.trans known
    refine ⟨y, inFound, ?_⟩
    rw [(written_of_join path join).2, if_neg Bool.false_ne_true, isType]

end Joins

/-! ## Sorts -/

/-- The relations that the segments `head` and `rest` of a sort cross from an entity and its table on, with
    what was walked before in front of their paths. -/
def sortLinks (ctx : Context) :
    (rest : List String) → (head : String) → Schema → (table walked : String) → List Link
  | [], _, _, _, _ => []
  | next :: more, head, schema, table, walked =>
    match schema.get? head with
    | none => []
    | some f =>
      if f.isRelation then
        match (ctx.related f).result, sortConfig ctx table (walked ++ head) f with
        | .ok related, .ok config =>
          ⟨walked ++ head, table, config⟩ ::
            sortLinks ctx more next related config.table (walked ++ head ++ ".")
        | _, _ => []
      else []

section SortLinks

variable {ctx : Context} {next head path table walked : String} {more : List String}
  {schema related : Schema} {f : Field}

theorem sortLinks_relation {config : Config} (found : schema.field head path = .ok f)
    (relation : f.isRelation = true) (target : (ctx.related f).result = .ok related)
    (configured : sortConfig ctx table (walked ++ head) f = .ok config) :
    sortLinks ctx (next :: more) head schema table walked =
      ⟨walked ++ head, table, config⟩ ::
        sortLinks ctx more next related config.table (walked ++ head ++ ".") := by
  simp [sortLinks, get?_of_field found, relation, target, configured]

theorem sortLinks_column (found : schema.field head path = .ok f) (column : f.isRelation = false) :
    sortLinks ctx (next :: more) head schema table walked = [] := by
  simp [sortLinks, get?_of_field found, column]

end SortLinks

section Keyed

variable {ctx : Context} {mode : SortMode} {name : String} {rest : List String} {head : String}
  {site : SortSite} {e : Expr} {joins : List JoinClause}

/-- A sort joins every relation that it crosses, unless it is joined already. -/
theorem exists_clause_of_keyed (walk : Keyed ctx mode name rest head site e joins) :
    ∀ link ∈ sortLinks ctx rest head site.schema site.table site.walked, link.path ∉ mode.joined →
      ∃ clause ∈ joins, link.Written ctx.settings true clause := by
  induction walk with
  | leaf => simp [sortLinks]
  | inner shallow found column expr => simp [sortLinks_column found column]
  | joined shallow found relation target configured clause rest ih =>
    intro link member fresh
    rw [sortLinks_relation found relation target configured] at member
    rcases List.mem_cons.mp member with rfl | behind
    · simp only [sortClause, if_neg fresh] at clause
      obtain ⟨x, join, rfl⟩ := map_eq_ok.mp clause
      exact ⟨x.1, Text.mem_mergeNew.mpr (.inl (List.mem_singleton_self _)), (written_of_join _ join).1⟩
    · obtain ⟨made, inJoins, written⟩ := ih link behind fresh
      exact ⟨made, Text.mem_mergeNew.mpr (.inr inJoins), written⟩

/-- Every join of a sort is that of a relation that it crosses and that is not joined already. -/
theorem exists_link_of_keyed (walk : Keyed ctx mode name rest head site e joins) :
    ∀ clause ∈ joins, ∃ link ∈ sortLinks ctx rest head site.schema site.table site.walked,
      link.path ∉ mode.joined ∧ link.Written ctx.settings true clause := by
  induction walk with
  | leaf | inner => simp
  | joined shallow found relation target configured clause rest ih =>
    intro made member
    rw [sortLinks_relation found relation target configured]
    rcases Text.mem_mergeNew.mp member with own | behind
    · unfold sortClause at clause
      split at clause
      case isTrue already =>
        cases clause
        cases own
      case isFalse fresh =>
        obtain ⟨x, join, rfl⟩ := map_eq_ok.mp clause
        cases List.mem_singleton.mp own
        exact ⟨_, List.mem_cons_self, fresh, (written_of_join _ join).1⟩
    · obtain ⟨link, inLinks, fresh, written⟩ := ih made behind
      exact ⟨link, List.mem_cons_of_mem _ inLinks, fresh, written⟩

end Keyed

/-! ## Whole queries -/

/-- A relation that the filters or the search of a query go through, joined from the root table. -/
structure Link.Used (ctx : Context) (q : Query) (schema : Schema) (c : Compiled) (link : Link) : Prop where
  uses : Uses ctx q schema link.path
  known : ctx.config? link.path = some link.config
  base : link.base = c.table

/-- A registered relation that a query preloads, joined from the root table. -/
structure Link.Preloaded (ctx : Context) (q : Query) (c : Compiled) (link : Link) : Prop where
  asked : link.path ∈ q.preloads
  known : ctx.config? link.path = some link.config
  base : link.base = c.table

/-- A relation that a sort of a query crosses on the way to its key. -/
def Link.Sorted (ctx : Context) (q : Query) (schema : Schema) (c : Compiled) (link : Link) : Prop :=
  ∃ sort term e, (sort, term) ∈ q.sorts.zip c.order ∧ term.key = .expr e ∧
    link ∈ sortLinks ctx sort.path.rest sort.path.head schema c.table ""

/-- A relation that is joined for preloads or sorts only. -/
def Link.Brought (ctx : Context) (q : Query) (schema : Schema) (c : Compiled) (link : Link) : Prop :=
  (link.Preloaded ctx q c ∨ link.Sorted ctx q schema c) ∧ ¬ Uses ctx q schema link.path

/-- A relation that is joined. -/
def Link.Joined (ctx : Context) (q : Query) (schema : Schema) (c : Compiled) (link : Link) : Prop :=
  link.Used ctx q schema c ∨ link.Brought ctx q schema c

/-- The clause that a relation is joined by: the discriminator is in it if the relation is joined for
    preloads or sorts only. -/
inductive Link.Joins (ctx : Context) (q : Query) (schema : Schema) (c : Compiled) (link : Link) :
    JoinClause → Prop where
  | used {clause : JoinClause} (used : link.Used ctx q schema c)
      (written : link.Written ctx.settings false clause) : link.Joins ctx q schema c clause
  | brought {clause : JoinClause} (brought : link.Brought ctx q schema c)
      (written : link.Written ctx.settings true clause) : link.Joins ctx q schema c clause

namespace Link.Joins

variable {ctx : Context} {q : Query} {schema : Schema} {c : Compiled} {link : Link} {clause : JoinClause}

theorem joined (joins : link.Joins ctx q schema c clause) : link.Joined ctx q schema c := by
  cases joins with
  | used used written => exact .inl used
  | brought brought written => exact .inr brought

theorem tables_eq (joins : link.Joins ctx q schema c clause) :
    clause.map (·.table) = link.config.tables := by
  cases joins with
  | used used written => exact written.tables_eq
  | brought brought written => exact written.tables_eq

end Link.Joins

namespace Stages.Yield

variable {ctx : Context} {strict : Bool} {q : Query} {subject : Subject} {table : Option String}
  {c : Compiled} {s : Stages}

theorem mem_preloads_iff (yields : s.Yield ctx strict q subject table c) {path : String} :
    path ∈ s.preloads ctx q ↔
      path ∈ q.preloads ∧ ctx.isRegistered path = true ∧ ¬ Uses ctx q s.schema path := by
  rw [← yields.mem_paths_iff]
  have same : ctx.registry.elim false (·.contains path) = ctx.isRegistered path := by
    unfold Context.isRegistered Context.config?
    cases ctx.registry <;> rfl
  simp [Stages.preloads, joinedPreloads, same]

/-- The joins of a compiled query: those for filters and search, for preloads, and for sorts. -/
theorem mem_joins_cases (yields : s.Yield ctx strict q subject table c) {clause : JoinClause} :
    clause ∈ c.joins ↔ clause ∈ s.joins ∨ clause ∈ s.sorts.joins := by
  rw [yields.compiled]
  exact Text.mem_mergeNew

/-- The sorts of a compiled query come from one walk each, or are written as they stand. -/
theorem sorted (yields : s.Yield ctx strict q subject table c) :
    ∃ found : List (OrderTerm × List JoinClause), c.order = found.map (·.1) ∧
      s.sorts.joins = Text.mergeNew [] (found.flatMap (·.2)) ∧
      List.Forall₂ (fun sort x =>
        (∃ e, Keyed ctx { strict, joined := s.paths } sort.name sort.path.rest sort.path.head
          { schema := s.schema, table := c.table, walked := "", depth := 0 } e x.2 ∧ x.1.key = .expr e) ∨
        (x.1.key = .verbatim sort.name ∧ x.2 = [])) q.sorts found := by
  obtain ⟨schema, found, described, walks, same⟩ := compileSorts_eq_ok yields.sorts
  cases described.symm.trans yields.schema
  have root : rootTable s.schema (some (rootTable s.schema table)) = c.table := by
    rw [rootTable_rootTable, yields.compiled]
  rw [root] at walks
  refine ⟨found, by rw [yields.compiled, same], by rw [same], walks.imp fun sort x walk => ?_⟩
  rcases sortTerm_eq_ok walk with ⟨e, keyed, key⟩ | ⟨_, _, _, rfl⟩
  · exact .inl ⟨e, keyed, by rw [key]⟩
  · exact .inr ⟨rfl, rfl⟩

/-- A relation that filters or search go through is joined, with its discriminator apart. -/
theorem exists_clause_of_used (yields : s.Yield ctx strict q subject table c) {link : Link}
    (used : link.Used ctx q s.schema c) :
    ∃ clause ∈ c.joins, link.Written ctx.settings false clause := by
  obtain ⟨clause, type, made, inJoins, _⟩ :=
    yields.join_of_path (yields.mem_paths_iff.mpr used.uses) used.known
  obtain rfl := made.discriminator_eq
  rw [← used.base] at made
  exact ⟨clause, inJoins, clause, made, rfl⟩

/-- A relation that is joined for preloads or sorts only has its discriminator in the clause. -/
theorem exists_clause_of_brought (yields : s.Yield ctx strict q subject table c) {link : Link}
    (brought : link.Brought ctx q s.schema c) :
    ∃ clause ∈ c.joins, link.Written ctx.settings true clause := by
  obtain ⟨preloaded | ⟨sort, term, e, paired, key, crosses⟩, unused⟩ := brought
  · have registered := isRegistered_iff.mpr ⟨_, preloaded.known⟩
    have member := yields.mem_preloads_iff.mpr ⟨preloaded.asked, registered, unused⟩
    rcases requestJoins_eq_ok.mp yields.joins with
      ⟨none, _⟩ | ⟨r, needed, loaded, further, registry, _, joined, merged⟩
    · have known := preloaded.known
      simp [Context.config?, none] at known
    · obtain ⟨config, known, clause, inLoaded, written⟩ := exists_clause_of_joins joined member
      have same : link = ⟨link.path, rootTable s.schema table, config⟩ := by
        have isConfig : config = link.config := by
          have registered := preloaded.known
          simp only [Context.config?, registry, Option.bind_some] at registered
          exact Option.some.inj (known.symm.trans registered)
        have root : link.base = rootTable s.schema table := by
          rw [preloaded.base, yields.compiled]
        rw [isConfig, ← root]
      rw [← same] at written
      refine ⟨clause, yields.mem_joins_cases.mpr (.inl ?_), written⟩
      rw [merged]
      exact Text.mem_mergeNew.mpr (.inr inLoaded)
  · obtain ⟨found, order, joins, walks⟩ := yields.sorted
    rw [order, List.zip_map_right, List.mem_map] at paired
    obtain ⟨⟨_, x⟩, inZip, same⟩ := paired
    cases same
    have walk := (List.forall₂_iff_zip.mp walks).2 inZip
    rcases walk with ⟨e, keyed, _⟩ | ⟨verbatim, _⟩
    · have fresh : link.path ∉ s.paths := fun member => unused (yields.mem_paths_iff.mp member)
      obtain ⟨clause, inSort, written⟩ := exists_clause_of_keyed keyed link crosses fresh
      refine ⟨clause, yields.mem_joins_cases.mpr (.inr ?_), written⟩
      rw [joins]
      refine Text.mem_mergeNew.mpr (.inr (List.mem_flatMap.mpr ⟨x, ?_, inSort⟩))
      exact (List.of_mem_zip inZip).2
    · rw [key] at verbatim
      cases verbatim

/-- Every join is that of a relation which filters or search go through, or which is joined for preloads or
    sorts only. -/
theorem link_of_mem_joins (yields : s.Yield ctx strict q subject table c) {clause : JoinClause}
    (member : clause ∈ c.joins) : ∃ link : Link, link.Joins ctx q s.schema c clause := by
  have root : rootTable s.schema table = c.table := by rw [yields.compiled]
  rcases yields.mem_joins_cases.mp member with requested | sorted
  · rcases requestJoins_eq_ok.mp yields.joins with
      ⟨_, none, _⟩ | ⟨r, needed, loaded, further, registry, joined, preloaded, merged⟩
    · rw [none] at requested
      cases requested
    · have known : ∀ {path config}, r.get? path = some config → ctx.config? path = some config := by
        intro path config known
        simpa [Context.config?, registry] using known
      rw [root] at joined preloaded
      rw [merged] at requested
      rcases Text.mem_mergeNew.mp requested with inNeeded | inLoaded
      · obtain ⟨path, inPaths, config, isConfig, written⟩ := exists_path_of_joins joined inNeeded
        exact ⟨_, .used ⟨yields.mem_paths_iff.mp inPaths, known isConfig, rfl⟩ written⟩
      · obtain ⟨path, inPaths, config, isConfig, written⟩ := exists_path_of_joins preloaded inLoaded
        obtain ⟨asked, _, unused⟩ := yields.mem_preloads_iff.mp inPaths
        exact ⟨_, .brought ⟨.inl ⟨asked, known isConfig, rfl⟩, unused⟩ written⟩
  · obtain ⟨found, order, joins, walks⟩ := yields.sorted
    simp only [joins, Text.mem_mergeNew, List.not_mem_nil, false_or, List.mem_flatMap] at sorted
    obtain ⟨x, inFound, inSort⟩ := sorted
    obtain ⟨sort, inZip⟩ : ∃ sort, (sort, x) ∈ q.sorts.zip found := by
      obtain ⟨i, bound, rfl⟩ := List.mem_iff_getElem.mp inFound
      have same := walks.length_eq
      exact ⟨q.sorts[i], List.mem_iff_getElem.mpr ⟨i, by simp [same, bound], by simp⟩⟩
    rcases (List.forall₂_iff_zip.mp walks).2 inZip with ⟨e, keyed, key⟩ | ⟨_, none⟩
    · obtain ⟨link, crosses, fresh, written⟩ := exists_link_of_keyed keyed clause inSort
      refine ⟨link, .brought ⟨.inr ⟨sort, x.1, e, ?_, key, crosses⟩, ?_⟩ written⟩
      · rw [order, List.zip_map_right, List.mem_map]
        exact ⟨(sort, x), inZip, rfl⟩
      · exact fun uses => fresh (yields.mem_paths_iff.mpr uses)
    · rw [none] at inSort
      cases inSort

/-- The discriminators among the conditions are those of the relations that filters or search go
    through. -/
theorem mem_discriminators_iff (yields : s.Yield ctx strict q subject table c) {x : Discriminator} :
    x ∈ c.discriminators ↔
      ∃ link : Link, link.Used ctx q s.schema c ∧ link.config.discriminator? = some x := by
  have same : c.discriminators = s.discriminators := by rw [yields.compiled]
  rw [same]
  rcases requestJoins_eq_ok.mp yields.joins with
    ⟨none, _, empty⟩ | ⟨r, needed, loaded, further, registry, joined, _, _⟩
  · simp only [empty, List.not_mem_nil, false_iff]
    rintro ⟨link, used, _⟩
    have known := used.known
    simp [Context.config?, none] at known
  · have known : ∀ path, ctx.config? path = r.get? path := by
      intro path
      simp [Context.config?, registry]
    rw [mem_types_of_joins joined]
    constructor
    · rintro ⟨path, inPaths, config, isConfig, isType⟩
      refine ⟨⟨path, c.table, config⟩, ⟨yields.mem_paths_iff.mp inPaths, ?_, rfl⟩, isType⟩
      rw [known, isConfig]
    · rintro ⟨link, used, isType⟩
      refine ⟨link.path, yields.mem_paths_iff.mpr used.uses, link.config, ?_, isType⟩
      rw [← known, used.known]

end Stages.Yield

end RowQuery.Compile
