import RowQuery.Proofs.Scoping

/-!
# Where joins start

A registered relation is joined for filters and search as well as for sorts. A sort goes from table to
table: the join of each relation starts from the table that was joined for the one before. The joins for
filters and search all start from the root table, also those of nested paths. Apart from this, and from
where a discriminator is put, both are the same clause.
-/

namespace RowQuery.Sql

/-- A clause that starts from another table. -/
def JoinClause.startingAt (table : String) : JoinClause → JoinClause
  | [] => []
  | j :: js => { j with left := { j.left with table := some table } } :: js

end RowQuery.Sql

namespace RowQuery.Compile

open RowQuery.Schema RowQuery.Sql RowQuery.Join

/-- The paths of the relations that the segments `head` and `rest` cross from an entity on, with what was
    walked before in front of them. -/
def crossed (ctx : Context) : (rest : List String) → (head : String) → Schema → String → List String
  | [], _, _, _ => []
  | next :: more, head, schema, walked =>
    match schema.get? head with
    | none => []
    | some f =>
      if f.isRelation then
        match (ctx.related f).result with
        | .ok related => (walked ++ head) :: crossed ctx more next related (walked ++ head ++ ".")
        | .error _ => []
      else []

/-- The table that is reached from a table when registered paths are joined one after the other. -/
def Context.reached (ctx : Context) : String → List String → String
  | table, [] => table
  | table, path :: paths => ctx.reached ((ctx.config? path).elim table (·.table)) paths

/-- The last of several registered paths decides which table is reached. -/
theorem reached_concat {ctx : Context} {path : String} {config : Config}
    (known : ctx.config? path = some config) (table : String) (paths : List String) :
    ctx.reached table (paths ++ [path]) = config.table := by
  induction paths generalizing table with
  | nil => simp [Context.reached, known]
  | cons first paths ih => exact ih _

section Crossed

variable {ctx : Context} {next head path : String} {more : List String} {schema related : Schema}
  {f : Field}

theorem crossed_relation (found : schema.field head path = .ok f) (relation : f.isRelation = true)
    (target : (ctx.related f).result = .ok related) (walked : String) :
    crossed ctx (next :: more) head schema walked =
      (walked ++ head) :: crossed ctx more next related (walked ++ head ++ ".") := by
  simp [crossed, get?_of_field found, relation, target]

theorem crossed_column (found : schema.field head path = .ok f) (column : f.isRelation = false)
    (walked : String) : crossed ctx (next :: more) head schema walked = [] := by
  simp [crossed, get?_of_field found, column]

end Crossed

/-! ## Clauses -/

section Clauses

variable {settings : Settings} {base : String} {config : Config} {clause clause' : JoinClause}
  {type type' : Option Discriminator}

/-- A configuration has one clause from each table, and one discriminator. -/
theorem Claused.unique (first : Claused settings base config clause type)
    (second : Claused settings base config clause' type') : clause' = clause ∧ type' = type := by
  have same := (clause_eq_ok.mpr second).symm.trans (clause_eq_ok.mpr first)
  cases same
  exact ⟨rfl, rfl⟩

/-- From another table a configuration has the same clause but for where it starts. -/
theorem Claused.startingAt (made : Claused settings base config clause type) (other : String) :
    Claused settings other config (clause.startingAt other) type := by
  cases made with
  | direct plan => exact .direct plan
  | pivot plan named => exact .pivot plan named
  | polymorphic plan named => exact .polymorphic plan named

theorem Claused.startingAt_eq_self (made : Claused settings base config clause type) (other : String) :
    clause.startingAt other = clause ↔ other = base := by
  cases made <;> simp [JoinClause.startingAt, Column.of]

end Clauses

/-! ## Filters, search and sorts -/

/-- A filter reports every relation that it crosses through registered ones. -/
theorem mem_paths_of_crossed {ctx : Context} {flt : Filter} {rest : List String} {head : String}
    {site : Site} {n : Narrowing} {walked path : String} {before after : List String}
    (walk : Narrowed ctx flt rest head site n) (reached : site.walked = some walked)
    (crosses : crossed ctx rest head site.schema walked = before ++ path :: after)
    (registered : ∀ a ∈ before ++ [path], ∃ config, ctx.config? a = some config) : path ∈ n.paths := by
  induction walk generalizing walked before with
  | leaf => simp [crossed] at crosses
  | inner shallow found column expr test =>
    rw [crossed_column found column] at crosses
    simp at crosses
  | joined shallow found relation target isRegistered rest ih =>
    obtain ⟨_, same, rfl, _⟩ := registered?_eq_some.mp isRegistered
    cases reached.symm.trans same
    rw [crossed_relation found relation target] at crosses
    cases before with
    | nil =>
      obtain ⟨rfl, _⟩ := List.cons.inj crosses
      exact List.mem_cons_self
    | cons first before =>
      obtain ⟨_, behind⟩ := List.cons.inj crosses
      refine List.mem_cons_of_mem _ (ih rfl behind ?_)
      intro a member
      exact registered a (List.mem_cons_of_mem _ member)
  | @nested next head more site f related frames n shallow found relation target unregistered rest framed ih =>
    rw [crossed_relation found relation target] at crosses
    have first : walked ++ head ∈ before ++ [path] := by
      cases before with
      | nil => simp [(List.cons.inj crosses).1]
      | cons first before => simp [(List.cons.inj crosses).1]
    obtain ⟨config, known⟩ := registered _ first
    rw [registered?_eq_some.mpr ⟨walked, reached, rfl, known⟩] at unregistered
    cases unregistered

/-- A sort joins every relation that it crosses through registered ones, from the table that these lead
    to. -/
theorem join_of_crossed {ctx : Context} {mode : SortMode} {name : String} {rest : List String}
    {head : String} {site : SortSite} {e : Expr} {joins : List JoinClause} {path : String}
    {before after : List String} (walk : Keyed ctx mode name rest head site e joins)
    (alone : mode.joined = [])
    (crosses : crossed ctx rest head site.schema site.walked = before ++ path :: after)
    (registered : ∀ a ∈ before ++ [path], ∃ config, ctx.config? a = some config) :
    ∃ config clause, ctx.config? path = some config ∧ clause ∈ joins ∧
      ctx.sortRegistry.join ctx.settings (ctx.reached site.table before) config true =
        .ok (clause, none) := by
  induction walk generalizing before with
  | leaf => simp [crossed] at crosses
  | inner shallow found column expr =>
    rw [crossed_column found column] at crosses
    simp at crosses
  | @joined next head more site f related config own joins e shallow found relation target configured
      clause rest ih =>
    rw [crossed_relation found relation target] at crosses
    have first : site.walked ++ head ∈ before ++ [path] := by
      cases before with
      | nil => simp [(List.cons.inj crosses).1]
      | cons first before => simp [(List.cons.inj crosses).1]
    obtain ⟨other, known⟩ := registered _ first
    have same : other = config := by
      simpa [sortConfig, (sortRegistry_of_config? known).2] using configured
    subst same
    cases before with
    | nil =>
      obtain ⟨rfl, _⟩ := List.cons.inj crosses
      simp only [sortClause, alone, List.not_mem_nil, if_false] at clause
      obtain ⟨⟨made, type⟩, join, rfl⟩ := map_eq_ok.mp clause
      obtain ⟨_, _, _, _, _, inlined⟩ := join_eq_ok.mp join
      have none : type = none := congrArg Prod.snd inlined
      subst none
      exact ⟨other, made, known, Text.mem_mergeNew.mpr (.inl (List.mem_singleton_self _)), join⟩
    | cons start before =>
      obtain ⟨rfl, behind⟩ := List.cons.inj crosses
      obtain ⟨config, made, last, member, join⟩ :=
        ih behind fun a member => registered a (List.mem_cons_of_mem _ member)
      refine ⟨config, made, last, Text.mem_mergeNew.mpr (.inr member), ?_⟩
      simpa [Context.reached, known, SortSite.behind] using join

/-- A sort whose key is an expression has walked to it, with the joins on the way. -/
theorem keyed_of_compileSorts {ctx : Context} {mode : SortMode} {sort : Sorting} {subject : Subject}
    {table : Option String} {schema : Schema} {e : Expr} {direction : Direction} {joins : List JoinClause}
    (described : ctx.schemaOf subject = .ok schema)
    (ok : (compileSorts ctx mode [sort] subject table).result = .ok ⟨[⟨.expr e, direction⟩], joins⟩) :
    ∃ walked, joins = Text.mergeNew [] walked ∧
      Keyed ctx mode sort.name sort.path.rest sort.path.head
        { schema, table := rootTable schema table, walked := "", depth := 0 } e walked := by
  obtain ⟨_, found, again, walks, same⟩ := compileSorts_eq_ok ok
  cases described.symm.trans again
  obtain ⟨x, _, walk, none, rfl⟩ := List.forall₂_cons_left_iff.mp walks
  cases none
  obtain ⟨terms, merged⟩ := SortPart.mk.inj same
  refine ⟨x.2, by simpa using merged, ?_⟩
  rcases sortTerm_eq_ok walk with ⟨key, keyed, isKey⟩ | ⟨_, _, _, rfl⟩
  · have term : x.1 = ⟨.expr e, direction⟩ := by simpa using terms.symm
    rw [isKey] at term
    cases term
    exact keyed
  · cases terms

namespace Stages.Yield

variable {ctx : Context} {strict : Bool} {q : Query} {subject : Subject} {table : Option String}
  {c : Compiled} {s : Stages}

/-- The join of a path that filters or search go through starts from the root table, and its
    discriminator is among the conditions. -/
theorem join_of_path (yields : s.Yield ctx strict q subject table c) {path : String} {config : Config}
    (member : path ∈ s.paths) (known : ctx.config? path = some config) :
    ∃ clause type, Claused ctx.settings c.table config clause type ∧ clause ∈ c.joins ∧
      ∀ x ∈ type, x ∈ c.discriminators := by
  have joins := yields.joins
  rw [yields.compiled]
  rcases requestJoins_eq_ok.mp joins with
    ⟨none, _⟩ | ⟨r, needed, loaded, further, registry, joined, _, merged⟩
  · simp [Context.config?, none] at known
  · obtain ⟨found, each, rfl, types⟩ := joins_eq_ok.mp joined
    obtain ⟨⟨clause, type⟩, inFound, other, same, join⟩ :=
      exists_left_of_forall₂ (List.Forall₂.flip (R := flip _) each) member
    have isConfig : other = config := by
      simp only [Context.config?, registry, Option.bind_some] at known
      exact Option.some.inj (same.symm.trans known)
    subst isConfig
    obtain ⟨_, _, clause', type', made, split⟩ := join_eq_ok.mp join
    cases split
    refine ⟨clause, type, made, ?_, ?_⟩
    · refine Text.mem_mergeNew.mpr (.inl ?_)
      rw [merged]
      refine Text.mem_mergeNew.mpr (.inl (Text.mem_mergeNew.mpr (.inr ?_)))
      exact List.mem_map.mpr ⟨_, inFound, rfl⟩
    · intro x isType
      show x ∈ s.discriminators
      rw [types]
      exact Text.mem_mergeNew.mpr (.inr (List.mem_filterMap.mpr ⟨_, inFound, isType⟩))

end Stages.Yield

/-- Whether filters or the search of a query go through a path, behind the paths `before`. -/
def Traversed (ctx : Context) (q : Query) (subject : Subject) (schema : Schema) (table : String)
    (before : List String) (path : String) : Prop :=
  (∃ flt ∈ q.filters, ∃ after,
    crossed ctx flt.path.rest flt.path.head schema "" = before ++ path :: after) ∨
  ∃ part, (compileSearch ctx q.term subject (some table)).result = .ok part ∧ path ∈ part.paths

/-- A registered path that is reached through registered ones has one clause, up to the table that it
    starts from. Filters and search join it from the root table, with its discriminator among the
    conditions. A sort joins it from the table of the path before it, with its discriminator in the
    clause. So both joins are the same, the place of the discriminator apart, exactly if this table is the
    root table, as it is for a path of one segment. -/
theorem joins_of_crossed {ctx : Context} {strict lenient : Bool} {q : Query} {subject : Subject}
    {table : Option String} {c : Compiled} {schema : Schema} {before after : List String} {path : String}
    {sort : Sorting} {e : Expr} {direction : Direction} {joins : List JoinClause}
    (ok : (compileQuery ctx strict q subject table).result = .ok c)
    (described : ctx.schemaOf subject = .ok schema)
    (registered : ∀ a ∈ before ++ [path], ∃ config, ctx.config? a = some config)
    (traversed : Traversed ctx q subject schema c.table before path)
    (crosses : crossed ctx sort.path.rest sort.path.head schema "" = before ++ path :: after)
    (sorted : (compileSorts ctx { strict := lenient } [sort] subject (some c.table)).result =
      .ok ⟨[⟨.expr e, direction⟩], joins⟩) :
    (∀ parent ∈ before.getLast?, ∀ config ∈ ctx.config? parent,
      ctx.reached c.table before = config.table) ∧
    ∃ config clause type, ctx.config? path = some config ∧
      Claused ctx.settings c.table config clause type ∧
      clause ∈ c.joins ∧ (∀ x ∈ type, x ∈ c.discriminators) ∧
      Registry.inline (clause.startingAt (ctx.reached c.table before)) type ∈ joins ∧
      (clause.startingAt (ctx.reached c.table before) = clause ↔ ctx.reached c.table before = c.table) := by
  obtain ⟨s, yields⟩ := compileQuery_eq_ok ok
  cases described.symm.trans yields.schema
  have member : path ∈ s.paths := by
    rcases traversed with ⟨flt, inQuery, _, crosses⟩ | ⟨part, searched, inside⟩
    · obtain ⟨found, _, reported, walks⟩ := yields.walked
      obtain ⟨n, inFound, walk⟩ :=
        exists_left_of_forall₂ (List.Forall₂.flip (R := flip _) walks) inQuery
      have inside : path ∈ n.paths := mem_paths_of_crossed walk rfl crosses registered
      exact Stages.Yield.mem_paths_of_walk reported inFound inside
    · have same : part = s.search := by
        have root : c.table = rootTable s.schema table := by rw [yields.compiled]
        rw [root, yields.search] at searched
        exact (Except.ok.inj searched).symm
      rw [same] at inside
      exact Text.mem_mergeNew.mpr (.inr inside)
  obtain ⟨walked, merged, keyed⟩ := keyed_of_compileSorts described sorted
  rw [yields.root] at keyed
  obtain ⟨config, sortClause, known, inSort, join⟩ := join_of_crossed keyed rfl crosses registered
  obtain ⟨clause, type, made, inJoins, types⟩ := yields.join_of_path member known
  obtain ⟨_, _, other, type', remade, inlined⟩ := join_eq_ok.mp join
  obtain ⟨rfl, rfl⟩ := (made.startingAt (ctx.reached c.table before)).unique remade
  have isInlined : sortClause = Registry.inline (clause.startingAt (ctx.reached c.table before)) type' :=
    congrArg Prod.fst inlined
  constructor
  · intro parent last config known
    obtain ⟨start, rfl⟩ := List.getLast?_eq_some_iff.mp last
    exact reached_concat known _ _
  · refine ⟨config, clause, type', known, made, inJoins, types, ?_, made.startingAt_eq_self _⟩
    rw [merged, ← isInlined]
    exact Text.mem_mergeNew.mpr (.inr inSort)

namespace Books

/-- Books and their authors are joined, the authors behind the books. -/
def borrowing : Context :=
  { lending with
    registry := some { entries := [
      ("Book", { type := .oneToOne, table := "book", joinType := .left
                 keys := { localKey := some "BookID", foreignKey := some "ID" } }),
      ("Book.Author", { type := .oneToOne, table := "author", joinType := .left
                        keys := { localKey := some "AuthorID", foreignKey := some "ID" } })] } }

def byAusten : Query := { filters := [⟨"Book.Author.Name", .equal, "Austen"⟩] }

end Books

theorem joins_of_crossed_loans :
    ∃ c e joins, (compileQuery Books.borrowing true Books.byAusten (.entity "Loan") none).result = .ok c ∧
      (compileSorts Books.borrowing { strict := true } [⟨"Book.Author.Name", .ascending⟩] (.entity "Loan")
        (some c.table)).result = .ok ⟨[⟨.expr e, .ascending⟩], joins⟩ ∧
      Books.borrowing.reached c.table ["Book"] = "book" ∧
      ∃ config clause type, Books.borrowing.config? "Book.Author" = some config ∧
        Claused {} c.table config clause type ∧ clause ∈ c.joins ∧
        Registry.inline (clause.startingAt "book") type ∈ joins ∧ clause.startingAt "book" ≠ clause := by
  obtain ⟨c, ok, root⟩ : ∃ c, (compileQuery Books.borrowing true Books.byAusten (.entity "Loan")
      none).result = .ok c ∧ c.table = "loan" := ⟨_, rfl, rfl⟩
  obtain ⟨e, joins, sorted⟩ : ∃ e joins, (compileSorts Books.borrowing { strict := true }
      [⟨"Book.Author.Name", .ascending⟩] (.entity "Loan") (some c.table)).result =
        .ok ⟨[⟨.expr e, .ascending⟩], joins⟩ := by
    rw [root]
    exact ⟨_, _, rfl⟩
  obtain ⟨book, isRegistered, named⟩ : ∃ book, Books.borrowing.config? "Book" = some book ∧
      book.table = "book" := ⟨_, rfl, rfl⟩
  have registered : ∀ a ∈ ["Book"] ++ ["Book.Author"],
      ∃ config, Books.borrowing.config? a = some config := by
    intro a member
    rcases List.mem_cons.mp member with rfl | member
    · exact ⟨book, isRegistered⟩
    · cases List.mem_singleton.mp member
      exact ⟨_, rfl⟩
  have crosses : crossed Books.borrowing ["Author", "Name"] "Book" Books.loan "" =
      ["Book"] ++ "Book.Author" :: [] := by decide +kernel
  have traversed : Traversed Books.borrowing Books.byAusten (.entity "Loan") Books.loan c.table ["Book"]
      "Book.Author" := .inl ⟨_, List.mem_singleton_self _, [], crosses⟩
  have crossesSort : crossed Books.borrowing (Sorting.path ⟨"Book.Author.Name", .ascending⟩).rest
      (Sorting.path ⟨"Book.Author.Name", .ascending⟩).head Books.loan "" =
        ["Book"] ++ "Book.Author" :: [] := crosses
  obtain ⟨reached, config, clause, type, known, made, inJoins, _, inSort, same⟩ :=
    joins_of_crossed ok rfl registered traversed crossesSort sorted
  have fromBook : Books.borrowing.reached c.table ["Book"] = "book" :=
    (reached "Book" rfl book isRegistered).trans named
  rw [fromBook] at inSort same
  refine ⟨c, e, joins, ok, sorted, fromBook, config, clause, type, known, made, inJoins, inSort, ?_⟩
  intro equal
  have asRoot := same.mp equal
  rw [root] at asRoot
  simp at asRoot

/-- For a filter the authors of books are joined from the loan, for a sort from the book. -/
theorem joins_differ_loans :
    ∃ c part, (compileQuery Books.borrowing true Books.byAusten (.entity "Loan") none).result = .ok c ∧
      (compileSorts Books.borrowing { strict := true } [⟨"Book.Author.Name", .ascending⟩] (.entity "Loan")
        none).result = .ok part ∧
      c.joins.flatten.map (fun j => (j.table, j.left)) =
        [("book", .of "loan" "BookID"), ("author", .of "loan" "AuthorID")] ∧
      part.joins.flatten.map (fun j => (j.table, j.left)) =
        [("book", .of "loan" "BookID"), ("author", .of "book" "AuthorID")] :=
  ⟨_, _, rfl, rfl, by decide +kernel, by decide +kernel⟩

end RowQuery.Compile
