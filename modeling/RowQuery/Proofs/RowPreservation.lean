import RowQuery.Proofs.JoinSemantics
import RowQuery.Proofs.QueryCore
import RowQuery.Proofs.RelationFilters

/-!
# Rows that sorts and preloads keep

Whether joins for preloads and sorts change which rows of the root table are selected. The condition of a
query cannot tell what they add, as long as they bring in tables that it does not name. Left joins keep
every row, so the same rows are selected. An inner join drops the rows that find no partner. A right join
does so too, and it may select a row of nulls that the root table does not have.
-/

namespace RowQuery.Sql

variable {δ : Type} {E : Engine δ} {db : Database δ}

/-! ## What a condition depends on -/

/-- Rows that agree on some tables. -/
def Agree (tables : List String) (scopes scopes' : Scopes δ) : Prop :=
  ∀ t ∈ tables, scopes.find? (·.1 == t) = scopes'.find? (·.1 == t)

theorem Agree.cons {tables : List String} {scopes scopes' : Scopes δ} (agree : Agree tables scopes scopes')
    (source : String) (row : Row δ) :
    Agree (source :: tables) ((source, row) :: scopes) ((source, row) :: scopes') := by
  intro t member
  by_cases own : source = t
  · simp [own]
  · have inside : t ∈ tables := by
      rcases List.mem_cons.mp member with same | inside
      · exact absurd same.symm own
      · exact inside
    simpa [List.find?_cons, own] using agree t inside

/-- The columns of a condition that are not qualified stand in subselects, and are read from their rows. -/
def Predicate.Anchored : Predicate → Prop
  | .test lhs _ => lhs.source.table.isSome = true
  | .anyLanguage c _ _ | .hasText c _ => c.table.isSome = true
  | .sameColumn a b => a.table.isSome = true ∧ b.table.isSome = true
  | .and p q | .or p q => p.Anchored ∧ q.Anchored
  | .group p => p.Anchored
  | .inSelect lhs _ _ _ => lhs.table.isSome = true

theorem Predicate.anchored_of_columns {p : Predicate} (columns : ∀ c ∈ p.columns, c.table.isSome = true) :
    p.Anchored := by
  induction p with
  | test lhs t => exact columns _ (by simp [Predicate.columns])
  | anyLanguage c found pattern => exact columns _ (by simp [Predicate.columns])
  | sameColumn a b =>
    exact ⟨columns a (by simp [Predicate.columns]), columns b (by simp [Predicate.columns])⟩
  | hasText c value => exact columns _ (by simp [Predicate.columns])
  | and p q ihp ihq | or p q ihp ihq =>
    exact ⟨ihp fun c member => columns c (by simp [Predicate.columns, member]),
      ihq fun c member => columns c (by simp [Predicate.columns, member])⟩
  | group p ih => exact ih columns
  | inSelect lhs selected source p ih => exact columns lhs (by simp [Predicate.columns])

section Congruence

variable {tables : List String} {scopes scopes' : Scopes δ}

/-- A column has the same value in rows that agree on its table, or whose innermost row is the same if it
    has none. -/
theorem Column.value_congr {c : Column} (agree : Agree tables scopes scopes') (within : c.Within tables)
    (top : c.table.isSome = true ∨ scopes.head? = scopes'.head?) : c.value scopes = c.value scopes' := by
  unfold Column.value
  cases named : c.table with
  | some t => simp only [agree t (within t named)]
  | none =>
    rcases top with qualified | same
    · rw [named] at qualified
      cases qualified
    · simp only [same]

theorem Expr.value_congr {e : Expr} (agree : Agree tables scopes scopes') (within : e.source.Within tables)
    (top : e.source.table.isSome = true ∨ scopes.head? = scopes'.head?) :
    e.value E scopes = e.value E scopes' := by
  cases e with
  | column c => exact Column.value_congr agree within top
  | jsonText c keys => simp only [Expr.value, Column.value_congr (c := c) agree within top]
  | language c code => simp only [Expr.value, Column.value_congr (c := c) agree within top]

/-- A condition says the same of rows that agree on the tables it names. -/
theorem Predicate.truth_congr {p : Predicate} (agree : Agree tables scopes scopes')
    (within : p.Within tables) (top : p.Anchored ∨ scopes.head? = scopes'.head?) :
    p.truth E db scopes = p.truth E db scopes' := by
  induction p generalizing tables scopes scopes' with
  | test lhs t => simp only [truth, Expr.value_congr agree within top]
  | anyLanguage c found pattern => simp only [truth, Column.value_congr agree within top]
  | sameColumn a b =>
    simp only [truth, Column.value_congr agree within.1 (top.imp_left And.left),
      Column.value_congr agree within.2 (top.imp_left And.right)]
  | hasText c value => simp only [truth, Column.value_congr agree within top]
  | and p q ihp ihq =>
    simp only [truth, ihp agree within.1 (top.imp_left And.left),
      ihq agree within.2 (top.imp_left And.right)]
  | or p q ihp ihq =>
    simp only [truth, ihp agree within.1 (top.imp_left And.left),
      ihq agree within.2 (top.imp_left And.right)]
  | group p ih => exact ih agree within top
  | inSelect lhs selected source p ih =>
    -- Inside the subselect both have the same row in front.
    have inner : ∀ row, p.truth E db ((source, row) :: scopes) = p.truth E db ((source, row) :: scopes') :=
      fun row => ih (agree.cons source row) within.2.2 (.inr rfl)
    have value : ∀ row, selected.value ((source, row) :: scopes) =
        selected.value ((source, row) :: scopes') :=
      fun row => Column.value_congr (agree.cons source row) within.2.1 (.inr rfl)
    simp only [truth, inner, value, Column.value_congr agree within.1 top]

theorem Predicate.holds_congr {p : Predicate} (agree : Agree tables scopes scopes')
    (within : p.Within tables) (anchored : p.Anchored) :
    p.Holds E db scopes ↔ p.Holds E db scopes' := by
  unfold Predicate.Holds
  rw [p.truth_congr agree within (.inl anchored)]

end Congruence

/-! ## What joins add -/

/-- Rows with rows of some further tables in front. -/
def Extends (tables : List String) (scopes joined : Scopes δ) : Prop :=
  ∃ added : Scopes δ, joined = added ++ scopes ∧ ∀ x ∈ added, x.1 ∈ tables

namespace Extends

variable {tables more : List String} {scopes joined : Scopes δ}

theorem refl (tables : List String) (scopes : Scopes δ) : Extends tables scopes scopes :=
  ⟨[], rfl, by simp⟩

/-- A row in front of what is extended can be counted among what is added. -/
theorem behind {t : String} {row : Row δ} (extended : Extends tables ((t, row) :: scopes) joined) :
    Extends (t :: tables) scopes joined := by
  obtain ⟨added, rfl, each⟩ := extended
  refine ⟨added ++ [(t, row)], by simp, ?_⟩
  intro x member
  rcases List.mem_append.mp member with inside | last
  · exact List.mem_cons_of_mem _ (each x inside)
  · cases List.mem_singleton.mp last
    exact List.mem_cons_self

theorem getLast? (extended : Extends tables scopes joined) (some : scopes ≠ []) :
    joined.getLast? = scopes.getLast? := by
  obtain ⟨added, rfl, _⟩ := extended
  exact List.getLast?_append_of_ne_nil added some

/-- What is added does not show on other tables. -/
theorem agree (extended : Extends tables scopes joined) (fresh : ∀ t ∈ tables, t ∉ more) :
    Agree more joined scopes := by
  obtain ⟨added, rfl, each⟩ := extended
  intro t member
  have absent : added.find? (·.1 == t) = none := by
    refine List.find?_eq_none.mpr fun x inside => ?_
    have different : x.1 ≠ t := fun same => fresh x.1 (each x inside) (same ▸ member)
    simpa using different
  rw [List.find?_append, absent, Option.none_or]

end Extends

section Joins

variable {j : JoinStep} {js ks : List JoinStep} {tables : List String} {rows : List (Scopes δ)}
  {scopes joined : Scopes δ}

/-- What a join makes has a row of its table in front of what was there, or of nulls if it is a right
    join. -/
theorem mem_join (member : joined ∈ j.join E db tables rows) : ∃ row scopes,
    joined = (j.table, row) :: scopes ∧
      (scopes ∈ rows ∨ j.type = .right ∧ scopes = tables.map fun t => (t, nullRow)) := by
  have partner : ∀ {scopes}, joined ∈ j.partners E db scopes → ∃ row, joined = (j.table, row) :: scopes := by
    intro scopes inside
    obtain ⟨row, _, _, same⟩ := mem_partners.mp inside
    exact ⟨row, same⟩
  unfold JoinStep.join at member
  cases type : j.type with
  | inner =>
    simp only [type, List.mem_flatMap] at member
    obtain ⟨scopes, inRows, inside⟩ := member
    obtain ⟨row, same⟩ := partner inside
    exact ⟨row, scopes, same, .inl inRows⟩
  | left =>
    simp only [type, List.mem_flatMap] at member
    obtain ⟨scopes, inRows, inside⟩ := member
    split at inside
    · exact ⟨nullRow, scopes, List.mem_singleton.mp inside, .inl inRows⟩
    · obtain ⟨row, same⟩ := partner inside
      exact ⟨row, scopes, same, .inl inRows⟩
  | right =>
    simp only [type, List.mem_append, List.mem_flatMap, List.mem_map] at member
    rcases member with ⟨scopes, inRows, inside⟩ | ⟨row, _, same⟩
    · obtain ⟨row, same⟩ := partner inside
      exact ⟨row, scopes, same, .inl inRows⟩
    · exact ⟨row, _, same.symm, .inr ⟨rfl, rfl⟩⟩

/-- What several joins make has their rows in front of what was there, or of nulls if one of them is a
    right join. -/
theorem mem_joinAll (member : joined ∈ joinAll E db tables rows js) : ∃ scopes,
    Extends (js.map (·.table)) scopes joined ∧
      (scopes ∈ rows ∨ (∃ j ∈ js, j.type = .right) ∧ scopes = tables.map fun t => (t, nullRow)) := by
  induction js generalizing tables rows with
  | nil => exact ⟨joined, .refl _ _, .inl member⟩
  | cons j js ih =>
    obtain ⟨next, extended, inJoin | ⟨⟨k, inside, right⟩, rfl⟩⟩ := ih member
    · obtain ⟨row, scopes, rfl, before⟩ := mem_join inJoin
      refine ⟨scopes, extended.behind, before.imp_right ?_⟩
      rintro ⟨right, same⟩
      exact ⟨⟨j, List.mem_cons_self, right⟩, same⟩
    · exact ⟨_, extended.behind, .inr ⟨⟨k, List.mem_cons_of_mem _ inside, right⟩, rfl⟩⟩

/-- A left join loses nothing. -/
theorem exists_mem_join (left : j.type = .left) (member : scopes ∈ rows) (tables : List String) :
    ∃ row, (j.table, row) :: scopes ∈ j.join E db tables rows := by
  by_cases partner : ∃ row ∈ db j.table, j.on.Holds E db ((j.table, row) :: scopes)
  · obtain ⟨row, inTable, holds⟩ := partner
    exact ⟨row, (mem_join_left left).mpr ⟨scopes, member, .inl ⟨row, inTable, holds, rfl⟩⟩⟩
  · refine ⟨nullRow, (mem_join_left left).mpr ⟨scopes, member, .inr ⟨?_, rfl⟩⟩⟩
    intro row inTable holds
    exact partner ⟨row, inTable, holds⟩

/-- Neither do several. -/
theorem exists_mem_joinAll (left : ∀ j ∈ js, j.type = .left) (member : scopes ∈ rows) :
    ∃ joined ∈ joinAll E db tables rows js, Extends (js.map (·.table)) scopes joined := by
  induction js generalizing tables rows scopes with
  | nil => exact ⟨scopes, member, .refl _ _⟩
  | cons j js ih =>
    obtain ⟨row, inJoin⟩ := exists_mem_join (left j (by simp)) member tables
    obtain ⟨joined, inAll, extended⟩ := ih (fun k inside => left k (by simp [inside])) inJoin
    exact ⟨joined, inAll, extended.behind⟩

theorem joinAll_append : joinAll E db tables rows (js ++ ks) =
    joinAll E db ((js.map (·.table)).reverse ++ tables) (joinAll E db tables rows js) ks := by
  induction js generalizing tables rows with
  | nil => rfl
  | cons j js ih => simp [joinAll, ih]

end Joins

end RowQuery.Sql

namespace RowQuery.Compile

open RowQuery.Schema RowQuery.Sql RowQuery.Join

variable {δ : Type}

/-! ## Compiled conditions -/

theorem anchored_nest {settings : Settings} {f : Field} {outer related : String} {frames : List Frame}
    (framed : Framed settings f outer related frames) (p : Predicate) :
    (Frame.nest frames p).Anchored := by
  cases framed with
  | direct | pivot | polymorphic => rfl

/-- Where columns are qualified, the condition of a filter names the table of each column outside of
    subselects. -/
theorem anchored_narrowed {ctx : Context} {flt : Filter} {rest : List String} {head : String} {site : Site}
    {n : Narrowing} (walk : Narrowed ctx flt rest head site n) (qualified : site.qualified = true) :
    n.condition.Anchored := by
  have named : ∀ {site : Site}, site.qualified = true → site.qualifier.isSome = true := by
    intro site qualified
    simp [Site.qualifier, qualified]
  induction walk with
  | leaf shallow found column condition =>
    apply Predicate.anchored_of_columns
    intro c member
    rw [columns_leafCondition (leafCondition_eq_ok condition) c member]
    exact named qualified
  | inner shallow found column expr test =>
    have source := source_innerExpr expr
    show Option.isSome _ = true
    rw [source]
    exact named qualified
  | joined shallow found relation target registered rest ih => exact ih rfl
  | nested shallow found relation target unregistered rest framed ih =>
    exact anchored_nest (framed_of_relationFrames framed) _

theorem anchored_searched {ctx : Context} {term : String} {budget : Nat} {site : SearchSite}
    {fields : List Field} {last : SearchPart}
    (search : Searched ctx term budget site fields ⟨[], []⟩ last)
    (known : ∀ f ∈ fields, f ∈ site.schema.fields) : ∀ p ∈ last.alternatives, p.Anchored := by
  apply search.forall_alternatives (P := fun _ p => p.Anchored)
  case column =>
    intro site f lhs pattern expr
    show Option.isSome _ = true
    rw [source_expr expr]
    rfl
  case joined => exact fun _ _ _ inner => inner
  case nested => exact fun _ _ framed _ => anchored_nest (framed_of_relationFrames framed) _
  case known => exact known
  case before => simp

namespace Stages.Yield

variable {ctx : Context} {strict : Bool} {q : Query} {subject : Subject} {table : Option String}
  {c : Compiled} {s : Stages}

/-- The tables of the joins for filters, search and preloads are selected from. -/
theorem requested_subset_visible (yields : s.Yield ctx strict q subject table c) :
    s.joins.flatten.map (·.table) ⊆ c.visible := by
  intro t member
  have joins : c.joins = Text.mergeNew s.joins s.sorts.joins := by rw [yields.compiled]
  rw [Compiled.visible, joins]
  exact List.mem_append_left _ (mem_tables_mergeNew.mpr (.inl member))

/-- The condition of a compiled query says the same of rows that agree on the tables it selects from. -/
theorem condition_congr (yields : s.Yield ctx strict q subject table c) {E : Engine δ} {db : Database δ}
    {scopes scopes' : Scopes δ} (agree : Agree c.visible scopes scopes') :
    (∀ p ∈ c.condition?, p.Holds E db scopes) ↔ ∀ p ∈ c.condition?, p.Holds E db scopes' := by
  obtain ⟨_, brought, speaks⟩ := yields.within_requested
  have root : c.table ∈ c.visible := by simp [Compiled.visible]
  have needed := yields.requested_subset_visible
  have joined : ∀ path ∈ s.paths, ∀ config ∈ ctx.config? path, config.table ∈ c.visible :=
    fun path member config known => needed (brought path member config known)
  have filters : ∀ p ∈ c.filters, (p.Holds E db scopes ↔ p.Holds E db scopes') := by
    obtain ⟨found, conditions, reported, walks⟩ := yields.walked
    rw [conditions]
    intro p member
    obtain ⟨n, inFound, rfl⟩ := List.mem_map.mp member
    obtain ⟨flt, _, walk⟩ := exists_left_of_forall₂ walks inFound
    refine Predicate.holds_congr agree (within_narrowed walk root fun path inside => joined path ?_)
      (anchored_narrowed walk rfl)
    exact Stages.Yield.mem_paths_of_walk reported inFound inside
  have search : ∀ p ∈ c.search, (p.Holds E db scopes ↔ p.Holds E db scopes') := by
    obtain ⟨same, none | searched⟩ := yields.searched
    · simp [same, none]
    · rw [same]
      intro p member
      refine Predicate.holds_congr agree ?_
        (anchored_searched searched (fun f => List.mem_of_mem_filter) p member)
      refine within_searched searched root (fun path inside => joined path ?_) (by simp) p member
      exact Text.mem_mergeNew.mpr (.inr inside)
  have discriminators : ∀ x ∈ c.discriminators,
      (x.predicate.Holds E db scopes ↔ x.predicate.Holds E db scopes') := by
    intro x member
    obtain ⟨link, _, isType⟩ := yields.mem_discriminators_iff.mp member
    refine Predicate.holds_congr agree ((speaks x member).mono needed) ?_
    unfold Config.discriminator? at isType
    split at isType
    · cases isType
      rfl
    · cases isType
  rw [Compiled.holds_condition, Compiled.holds_condition, forall₂_congr filters,
    forall₂_congr discriminators]
  simp only [exists_congr fun p => and_congr_right (search p)]

end Stages.Yield

/-! ## Added joins -/

/-- A compiled query that adds joins to another and changes nothing else that decides on rows. -/
structure Compiled.Adds (added : List JoinClause) (base c : Compiled) : Prop where
  table : c.table = base.table
  joins : c.joins = base.joins ++ added
  condition : c.condition? = base.condition?

theorem Compiled.ne_nil_of_mem_joinedRows {E : Engine δ} {db : Database δ} {c : Compiled}
    {scopes : Scopes δ} (member : scopes ∈ c.joinedRows E db) : scopes ≠ [] := by
  obtain ⟨start, ⟨added, rfl, _⟩, inRows | ⟨_, rfl⟩⟩ := mem_joinAll member
  · obtain ⟨row, _, rfl⟩ := List.mem_map.mp inRows
    simp
  · simp

namespace Compiled.Adds

variable {E : Engine δ} {db : Database δ} {row : Row δ} {added : List JoinClause} {base c : Compiled}

theorem joinedRows_eq (adds : base.Adds added c) : c.joinedRows E db =
    joinAll E db ((base.joins.flatten.map (·.table)).reverse ++ [base.table]) (base.joinedRows E db)
      added.flatten := by
  rw [Compiled.joinedRows, adds.table, adds.joins, List.flatten_append, joinAll_append]
  rfl

/-- Added joins that the condition does not see add no row, but for the row of nulls of a right join. -/
theorem selects (adds : base.Adds added c)
    (blind : ∀ {scopes joined : Scopes δ}, Extends (added.flatten.map (·.table)) scopes joined →
      ((∀ p ∈ base.condition?, p.Holds E db joined) ↔ ∀ p ∈ base.condition?, p.Holds E db scopes))
    (selected : c.Selects E db row) :
    base.Selects E db row ∨ row = nullRow ∧ ∃ j ∈ added.flatten, j.type = .right := by
  obtain ⟨joined, member, last, holds⟩ := selected
  rw [adds.joinedRows_eq] at member
  rw [adds.table] at last
  rw [adds.condition] at holds
  obtain ⟨scopes, extended, inRows | ⟨right, nulls⟩⟩ := mem_joinAll member
  · rw [extended.getLast? (Compiled.ne_nil_of_mem_joinedRows inRows)] at last
    exact .inl ⟨scopes, inRows, last, (blind extended).mp holds⟩
  · rw [extended.getLast? (by simp [nulls]), nulls] at last
    have isNull : nullRow = row := by simpa using last
    exact .inr ⟨isNull.symm, right⟩

/-- Added left joins that the condition does not see lose no row. -/
theorem selects_of_left (adds : base.Adds added c)
    (blind : ∀ {scopes joined : Scopes δ}, Extends (added.flatten.map (·.table)) scopes joined →
      ((∀ p ∈ base.condition?, p.Holds E db joined) ↔ ∀ p ∈ base.condition?, p.Holds E db scopes))
    (left : ∀ j ∈ added.flatten, j.type = .left) (selected : base.Selects E db row) :
    c.Selects E db row := by
  obtain ⟨scopes, member, last, holds⟩ := selected
  obtain ⟨joined, inAll, extended⟩ := exists_mem_joinAll left member
  refine ⟨joined, ?_, ?_, ?_⟩
  · rw [adds.joinedRows_eq]
    exact inAll
  · rw [extended.getLast? (Compiled.ne_nil_of_mem_joinedRows member), last, adds.table]
  · rw [adds.condition]
    exact (blind extended).mpr holds

end Compiled.Adds

/-- Joins for preloads and sorts that are left joins, and bring in tables that nothing else does, change
    nothing in which rows are selected. With other joins rows may be lost, and none is gained but the row
    of nulls that a right join makes. -/
theorem selects_core {ctx : Context} {strict : Bool} {q : Query} {subject : Subject}
    {table : Option String} {c : Compiled} {schema : Schema}
    (ok : (compileQuery ctx strict q subject table).result = .ok c)
    (described : ctx.schemaOf subject = .ok schema) :
    ∃ base, (compileQuery ctx strict q.core subject table).result = .ok base ∧
      ((∀ link : Link, link.Brought ctx q schema c → ∀ t ∈ link.config.tables, t ∉ base.visible) →
        ∀ {δ : Type} (E : Engine δ) (db : Database δ) (row : Row δ),
          (c.Selects E db row → base.Selects E db row ∨ row = nullRow ∧
            ∃ link : Link, link.Brought ctx q schema c ∧ link.config.joinType = .right) ∧
          ((∀ link : Link, link.Brought ctx q schema c → link.config.joinType = .left) →
            (c.Selects E db row ↔ base.Selects E db row))) := by
  obtain ⟨s, yields⟩ := compileQuery_eq_ok ok
  cases described.symm.trans yields.schema
  obtain ⟨s₀, base, added, loaded, core, _, same, brought⟩ := yields.exists_core
  refine ⟨base, core.result_eq, ?_⟩
  intro apart δ E db row
  have adds : base.Adds added c := by
    rw [same]
    exact ⟨rfl, rfl, rfl⟩
  -- Every added step belongs to a relation that is joined for preloads or sorts only.
  have steps : ∀ j ∈ added.flatten, ∃ link : Link, link.Brought ctx q s.schema c ∧
      j.table ∈ link.config.tables ∧ j.type = link.config.joinType := by
    intro j member
    obtain ⟨clause, inAdded, inside⟩ := List.mem_flatten.mp member
    obtain ⟨link, isBrought, written⟩ := brought clause inAdded
    refine ⟨link, isBrought, ?_, written.type_eq j inside⟩
    rw [← written.tables_eq]
    exact List.mem_map.mpr ⟨j, inside, rfl⟩
  have fresh : ∀ t ∈ added.flatten.map (·.table), t ∉ base.visible := by
    intro t member
    obtain ⟨j, inside, rfl⟩ := List.mem_map.mp member
    obtain ⟨link, isBrought, inTables, _⟩ := steps j inside
    exact apart link isBrought _ inTables
  have narrows : c.Selects E db row → base.Selects E db row ∨ row = nullRow ∧
      ∃ link : Link, link.Brought ctx q s.schema c ∧ link.config.joinType = .right := by
    intro selected
    refine (adds.selects (fun extended => core.condition_congr (extended.agree fresh)) selected).imp_right ?_
    rintro ⟨isNull, j, inside, right⟩
    obtain ⟨link, isBrought, _, type⟩ := steps j inside
    exact ⟨isNull, link, isBrought, type.symm.trans right⟩
  refine ⟨narrows, fun left => ⟨?_, ?_⟩⟩
  · intro selected
    rcases narrows selected with inBase | ⟨_, link, isBrought, right⟩
    · exact inBase
    · rw [left link isBrought] at right
      cases right
  · apply adds.selects_of_left fun extended => core.condition_congr (extended.agree fresh)
    intro j inside
    obtain ⟨link, isBrought, _, type⟩ := steps j inside
    exact type.trans (left link isBrought)

theorem selects_core_loans :
    ∃ c base, (compileQuery Books.borrowing true Books.borrowed (.entity "Loan") none).result = .ok c ∧
      (compileQuery Books.borrowing true Books.borrowed.core (.entity "Loan") none).result = .ok base ∧
      c.visible = ["book", "author", "note", "loan"] ∧ base.visible = ["book", "loan"] ∧
      ∀ {δ : Type} (E : Engine δ) (db : Database δ) (row : Row δ),
        c.Selects E db row ↔ base.Selects E db row := by
  obtain ⟨c, ok, root, tables⟩ : ∃ c,
      (compileQuery Books.borrowing true Books.borrowed (.entity "Loan") none).result = .ok c ∧
      c.table = "loan" ∧ c.visible = ["book", "author", "note", "loan"] := ⟨_, rfl, rfl, rfl⟩
  obtain ⟨base, core, keeps⟩ := selects_core ok rfl
  have fewer : base.visible = ["book", "loan"] := by
    obtain ⟨_, again, fewer⟩ : ∃ base,
        (compileQuery Books.borrowing true Books.borrowed.core (.entity "Loan") none).result = .ok base ∧
        base.visible = ["book", "loan"] := ⟨_, rfl, rfl⟩
    cases again.symm.trans core
    exact fewer
  refine ⟨c, base, ok, core, tables, fewer, fun E db row => (keeps ?_ E db row).2 ?_⟩
  · intro link brought t member
    rw [fewer]
    rcases (Books.brought_borrowed root brought).1 with ⟨_, tables⟩ | ⟨_, tables⟩
    all_goals
      rw [tables] at member
      cases List.mem_singleton.mp member
      decide
  · exact fun link brought => (Books.brought_borrowed root brought).2

namespace Books

/-- The author of a book is joined by an inner join. -/
def authored : Context :=
  { context with
    registry := some { entries := [("Author",
      { type := .oneToOne, table := "author", joinType := .inner
        keys := { localKey := some "AuthorID", foreignKey := some "ID" } })] } }

/-- A book without an author. -/
def anonymous : Database String
  | "book" => [row]
  | _ => []

end Books

/-- A book without an author is lost if its author is preloaded by an inner join. -/
theorem selects_lost_books :
    ∃ c base, (compileQuery Books.authored true { preloads := ["Author"] } (.entity "Book") none).result =
        .ok c ∧
      (compileQuery Books.authored true (Query.core { preloads := ["Author"] }) (.entity "Book")
        none).result = .ok base ∧
      base.Selects Books.engine Books.anonymous Books.row ∧
      ¬ c.Selects Books.engine Books.anonymous Books.row := by
  refine ⟨_, _, rfl, rfl, ?_, ?_⟩
  · exact ⟨[("book", Books.row)], List.mem_singleton_self _, rfl, nofun⟩
  · rintro ⟨scopes, member, _⟩
    cases member

end RowQuery.Compile
