import RowQuery.Proofs.JoinedRelations

/-!
# What sorts and preloads add

A query without its sorts and preloads is compiled to the same conditions, the same values and the same
selection. Its joins are the first ones of the whole query, and so are the paths that it reports. What is
added are the joins of the relations that nothing but sorts and preloads go through, and these bind no
values.
-/

namespace RowQuery

/-- A query without its sorts and preloads. -/
def Query.core (q : Query) : Query := { q with sorts := [], preloads := [] }

end RowQuery

namespace RowQuery.Compile

open RowQuery.Schema RowQuery.Sql RowQuery.Join

/-- The joins of a request without preloads are the first ones. -/
theorem requestJoins_core {ctx : Context} {table : String} {paths preloads : List String}
    {clauses : List JoinClause} {types : List Discriminator}
    (ok : requestJoins ctx table paths preloads = .ok (clauses, types)) :
    ∃ needed loaded, requestJoins ctx table paths [] = .ok (needed, types) ∧
      clauses = needed ++ loaded := by
  rcases requestJoins_eq_ok.mp ok with
    ⟨none, rfl, rfl⟩ | ⟨r, needed, loaded, further, registry, joined, _, rfl⟩
  · exact ⟨[], [], requestJoins_eq_ok.mpr (.inl ⟨none, rfl, rfl⟩), rfl⟩
  · obtain ⟨new, merged, _⟩ := Text.exists_mergeNew_eq needed loaded
    have alone : r.joins ctx.settings table [] true = .ok ([], []) := rfl
    exact ⟨needed, new, requestJoins_eq_ok.mpr (.inr ⟨r, needed, [], [], registry, joined, alone, rfl⟩),
      merged⟩

theorem compileSorts_nil {ctx : Context} {mode : SortMode} {subject : Subject} {table : Option String}
    {schema : Schema} (described : ctx.schemaOf subject = .ok schema) :
    (compileSorts ctx mode [] subject table).result = .ok ⟨[], []⟩ := by
  simp only [compileSorts, Traced.result_bind, result_describe, described, Traced.result_mapM]
  rfl

namespace Stages.Yield

variable {ctx : Context} {strict : Bool} {q : Query} {subject : Subject} {table : Option String}
  {c : Compiled} {s : Stages}

/-- No join is there twice. -/
theorem nodup_joins (yields : s.Yield ctx strict q subject table c) : c.joins.Nodup := by
  rw [yields.compiled]
  apply Text.nodup_mergeNew
  rcases requestJoins_eq_ok.mp yields.joins with
    ⟨_, empty, _⟩ | ⟨r, needed, loaded, further, _, joined, _, merged⟩
  · rw [empty]
    exact List.nodup_nil
  · obtain ⟨found, _, isNeeded, _⟩ := joins_eq_ok.mp joined
    rw [merged, isNeeded]
    exact Text.nodup_mergeNew (Text.nodup_mergeNew List.nodup_nil _) _

/-- Without its sorts and preloads a query goes through the same stages, apart from the order and the
    joins of relations that only these go through. -/
theorem exists_core (yields : s.Yield ctx strict q subject table c) :
    ∃ (s₀ : Stages) (base : Compiled) (added : List JoinClause) (loaded : List String),
      s₀.Yield ctx strict q.core subject table base ∧ s₀.schema = s.schema ∧
      c = { base with
        order := c.order, joins := base.joins ++ added, paths := base.paths ++ loaded
        preloads := c.preloads } ∧
      ∀ clause ∈ added, ∃ link : Link, link.Brought ctx q s.schema c ∧
        link.Written ctx.settings true clause := by
  obtain ⟨needed, loaded, requested, same⟩ := requestJoins_core yields.joins
  obtain ⟨new, merged, _⟩ := Text.exists_mergeNew_eq s.joins s.sorts.joins
  let s₀ : Stages := { s with joins := needed, sorts := ⟨[], []⟩ }
  let base : Compiled := { c with order := [], joins := needed, paths := s.paths, preloads := [] }
  have core : s₀.Yield ctx strict q.core subject table base := by
    refine ⟨yields.schema, yields.filters, yields.search, rfl, requested,
      compileSorts_nil yields.schema, yields.select, yields.level, ?_⟩
    simp only [base, yields.compiled]
    simp [s₀, Stages.paths, Stages.preloads, joinedPreloads, Query.core, Text.mergeNew]
  have joins : c.joins = needed ++ (loaded ++ new) := by
    rw [yields.compiled, merged, same, List.append_assoc]
  refine ⟨s₀, base, loaded ++ new, s.preloads ctx q, core, rfl, ?_, ?_⟩
  · have paths : c.paths = s.paths ++ s.preloads ctx q := by rw [yields.compiled]
    simp only [base, ← joins, ← paths]
  · intro clause member
    have inside : clause ∈ c.joins := by
      rw [joins]
      exact List.mem_append_right _ member
    obtain ⟨link, joins'⟩ := yields.link_of_mem_joins inside
    cases joins' with
    | brought brought written => exact ⟨link, brought, written⟩
    | used used written =>
      -- The core has joined this relation already, by the same clause.
      have usedThere : link.Used ctx q.core s₀.schema base := ⟨used.uses, used.known, used.base⟩
      obtain ⟨other, inNeeded, again⟩ := core.exists_clause_of_used usedThere
      rw [written.unique again] at inNeeded
      have nodup := yields.nodup_joins
      rw [joins] at nodup
      exact absurd member (List.disjoint_left.mp (List.disjoint_of_nodup_append nodup) inNeeded)

end Stages.Yield

/-- A relation is joined on quoted columns. -/
theorem Link.Written.plain {settings : Settings} {inlined : Bool} {link : Link} {clause : JoinClause}
    (written : link.Written settings inlined clause) : ∀ j ∈ clause, j.Plain := by
  obtain ⟨own, made, rfl⟩ := written
  obtain ⟨steps, type⟩ := plain_clause (clause_eq_ok.mpr made)
  cases inlined with
  | false => exact steps
  | true => exact plain_inline steps type

/-- Sorts and preloads only add: without them, a query that is compiled is compiled to the same condition,
    values and selection, to the first of its joins and to the first of its paths, and the joins that they
    add hold no placeholder. -/
theorem compileQuery_core {ctx : Context} {strict : Bool} {q : Query} {subject : Subject}
    {table : Option String} {c : Compiled}
    (ok : (compileQuery ctx strict q subject table).result = .ok c) :
    ∃ base, (compileQuery ctx strict q.core subject table).result = .ok base ∧
      base.whereText = c.whereText ∧ base.args = c.args ∧ base.selectTexts = c.selectTexts ∧
      base.joinTexts <+: c.joinTexts ∧ base.paths <+: c.paths ∧
      ∀ text ∈ c.joinTexts.drop base.joinTexts.length, ∀ backslash,
        placeholders (lex backslash text) = 0 := by
  obtain ⟨s, yields⟩ := compileQuery_eq_ok ok
  obtain ⟨s₀, base, added, loaded, core, _, same, brought⟩ := yields.exists_core
  have joins : c.joinTexts = base.joinTexts ++ added.map (·.text base.joinStyle) := by
    rw [same]
    simp [Compiled.joinTexts]
  refine ⟨base, core.result_eq, ?_, ?_, ?_, ?_, ?_, ?_⟩
  · rw [same]
    rfl
  · rw [same]
    rfl
  · rw [same]
    rfl
  · exact ⟨_, joins.symm⟩
  · rw [same]
    exact ⟨loaded, rfl⟩
  · intro text member backslash
    rw [joins, List.drop_left, List.mem_map] at member
    obtain ⟨clause, inAdded, rfl⟩ := member
    obtain ⟨link, _, written⟩ := brought clause inAdded
    have marked := JoinClause.marked base.joinStyle written.plain
    rw [JoinClause.text, lex_print marked.legible]
    exact marked.placeholders_eq backslash

namespace Books

/-- The loans of a book, with its author and by what was remarked. -/
def borrowed : Query :=
  { filters := [⟨"Book.Title", .equal, "Emma"⟩]
    sorts := [⟨"Remarks.Stars", .descending⟩, ⟨"Book.Title", .ascending⟩, ⟨"Remarks.Body", .ascending⟩]
    preloads := ["Book", "Book.Author"] }

theorem uses_borrowed {path : String} : Uses borrowing borrowed loan path ↔ path = "Book" := by
  have crosses : (crossed borrowing ["Title"] "Book" loan "").takeWhile borrowing.isRegistered =
      ["Book"] := by decide +kernel
  constructor
  · rintro (⟨flt, member, inside⟩ | ⟨some, _⟩)
    · cases List.mem_singleton.mp member
      exact List.mem_singleton.mp (crosses ▸ inside)
    · exact absurd rfl some
  · rintro rfl
    exact .inl ⟨_, List.mem_singleton_self _, crosses ▸ List.mem_singleton_self _⟩

/-- The authors and the remarks are joined for the preloads and the sorts of the loans only. -/
theorem brought_borrowed {c : Compiled} {link : Link} (root : c.table = "loan")
    (brought : link.Brought borrowing borrowed loan c) :
    (link.path = "Book.Author" ∧ link.config.tables = ["author"] ∨
      link.path = "Remarks" ∧ link.config.tables = ["note"]) ∧ link.config.joinType = .left := by
  obtain ⟨preloaded | ⟨sort, term, e, paired, _, crosses⟩, unused⟩ := brought
  · rcases List.mem_cons.mp preloaded.asked with isBook | isAuthor
    · exact absurd (uses_borrowed.mpr isBook) unused
    · have path := List.mem_singleton.mp isAuthor
      have known := preloaded.known
      rw [path] at known
      rw [← Option.some.inj known]
      exact ⟨.inl ⟨path, rfl⟩, rfl⟩
  · rw [root] at crosses
    have inside : sort ∈ borrowed.sorts := (List.of_mem_zip paired).1
    rcases List.mem_cons.mp inside with rfl | inside
    · rw [List.mem_singleton.mp crosses]
      exact ⟨.inr ⟨rfl, rfl⟩, rfl⟩
    · rcases List.mem_cons.mp inside with rfl | inside
      · rw [List.mem_singleton.mp crosses] at unused
        exact absurd (uses_borrowed.mpr rfl) unused
      · cases List.mem_singleton.mp inside
        rw [List.mem_singleton.mp crosses]
        exact ⟨.inr ⟨rfl, rfl⟩, rfl⟩

end Books

theorem compileQuery_core_loans :
    ∃ c base, (compileQuery Books.borrowing true Books.borrowed (.entity "Loan") none).result = .ok c ∧
      (compileQuery Books.borrowing true Books.borrowed.core (.entity "Loan") none).result = .ok base ∧
      c.visible = ["book", "author", "note", "loan"] ∧ base.visible = ["book", "loan"] ∧
      c.paths = ["Book", "Book.Author"] ∧ base.paths = ["Book"] ∧
      base.whereText = c.whereText ∧ base.args = c.args ∧ base.selectTexts = c.selectTexts ∧
      base.joinTexts <+: c.joinTexts ∧ base.paths <+: c.paths ∧
      ∀ text ∈ c.joinTexts.drop base.joinTexts.length, ∀ backslash,
        placeholders (lex backslash text) = 0 := by
  obtain ⟨c, ok, tables, paths⟩ : ∃ c,
      (compileQuery Books.borrowing true Books.borrowed (.entity "Loan") none).result = .ok c ∧
      c.visible = ["book", "author", "note", "loan"] ∧ c.paths = ["Book", "Book.Author"] :=
    ⟨_, rfl, rfl, rfl⟩
  obtain ⟨base, core, first⟩ := compileQuery_core ok
  obtain ⟨_, again, fewer, fewerPaths⟩ : ∃ base,
      (compileQuery Books.borrowing true Books.borrowed.core (.entity "Loan") none).result = .ok base ∧
      base.visible = ["book", "loan"] ∧ base.paths = ["Book"] := ⟨_, rfl, rfl, rfl⟩
  cases again.symm.trans core
  exact ⟨c, base, ok, core, tables, fewer, paths, fewerPaths, first⟩

end RowQuery.Compile
