import RowQuery.Proofs.JoinBases

/-!
# The registered paths of a query

Which registered paths filters and search leave to joins. A filter goes through the relations that its
path crosses, as far as these are registered one behind the other. A search goes through the registered
relations that lead to a searchable column, whatever lies between this column and the last of them.
-/

namespace RowQuery.Compile

open RowQuery.Schema RowQuery.Sql RowQuery.Join

/-- Whether a path is registered. -/
def Context.isRegistered (ctx : Context) (path : String) : Bool := (ctx.config? path).isSome

theorem isRegistered_iff {ctx : Context} {path : String} :
    ctx.isRegistered path = true ↔ ∃ config, ctx.config? path = some config :=
  Option.isSome_iff_exists

theorem isRegistered_of_registered {ctx : Context} {walked : Option String} {name path : String}
    {config : Config} (registered : ctx.registered? walked name = some (path, config)) :
    ctx.isRegistered path = true :=
  isRegistered_iff.mpr ⟨config, config?_of_registered registered⟩

theorem not_isRegistered_of_unregistered {ctx : Context} {walked name : String}
    (unregistered : ctx.registered? (some walked) name = none) :
    ctx.isRegistered (walked ++ name) = false := by
  cases known : ctx.isRegistered (walked ++ name) with
  | false => rfl
  | true =>
    obtain ⟨config, isConfig⟩ := isRegistered_iff.mp known
    rw [registered?_eq_some.mpr ⟨walked, rfl, rfl, isConfig⟩] at unregistered
    cases unregistered

/-! ## Filters -/

/-- A filter leaves the relations to joins that it crosses up to the first one that is not registered,
    and none inside a subselect. -/
theorem paths_narrowed {ctx : Context} {flt : Filter} {rest : List String} {head : String} {site : Site}
    {n : Narrowing} (walk : Narrowed ctx flt rest head site n) :
    n.paths = site.walked.elim [] fun walked =>
      (crossed ctx rest head site.schema walked).takeWhile ctx.isRegistered := by
  induction walk with
  | @leaf head site =>
    cases site.walked <;> rfl
  | @inner next head more site f lhs t shallow found column expr test =>
    cases site.walked with
    | none => rfl
    | some walked =>
      rw [Option.elim_some, crossed_column found column]
      rfl
  | joined shallow found relation target registered rest ih =>
    obtain ⟨walked, reached, rfl, _⟩ := registered?_eq_some.mp registered
    rw [reached, Option.elim_some, crossed_relation found relation target,
      List.takeWhile_cons_of_pos (isRegistered_of_registered registered), ih]
    rfl
  | @nested next head more site f related frames n shallow found relation target unregistered rest framed
      ih =>
    rw [ih]
    cases reached : site.walked with
    | none => rfl
    | some walked =>
      rw [reached] at unregistered
      rw [Option.elim_some, crossed_relation found relation target, List.takeWhile_cons_of_neg]
      · rfl
      · simp [not_isRegistered_of_unregistered unregistered]

/-! ## Search -/

/-- A field that leads to a searchable column: it is one, or a relation to an entity with a searchable
    field that does. -/
inductive Bears (ctx : Context) : Field → Prop where
  | column {f : Field} (plain : f.isRelation = false) : Bears ctx f
  | relation {f g : Field} {related : Schema} (relation : f.isRelation = true)
      (target : (ctx.related f).result = .ok related) (searchable : g ∈ related.searchableFields)
      (behind : Bears ctx g) : Bears ctx f

theorem bears_relation_iff {ctx : Context} {f : Field} {related : Schema} (relation : f.isRelation = true)
    (target : (ctx.related f).result = .ok related) :
    Bears ctx f ↔ ∃ g ∈ related.searchableFields, Bears ctx g := by
  constructor
  · intro bears
    cases bears with
    | column plain => simp [plain] at relation
    | relation _ same searchable behind =>
      cases same.symm.trans target
      exact ⟨_, searchable, behind⟩
  · rintro ⟨g, searchable, behind⟩
    exact .relation relation target searchable behind

theorem SearchPart.append_ne_nil (found here : SearchPart) :
    (found.append here).alternatives ≠ [] ↔ found.alternatives ≠ [] ∨ here.alternatives ≠ [] := by
  rw [SearchPart.append, Ne, List.append_eq_nil_iff, Decidable.not_and_iff_not_or_not]

/-- A search finds something as soon as one of the fields that it goes through leads to a column. -/
theorem alternatives_searched {ctx : Context} {term : String} {budget : Nat} {site : SearchSite}
    {fields : List Field} {found last : SearchPart}
    (search : Searched ctx term budget site fields found last) :
    last.alternatives ≠ [] ↔ found.alternatives ≠ [] ∨ ∃ f ∈ fields, Bears ctx f := by
  -- What a field adds decides together with what the fields behind it add.
  have step : ∀ {f : Field} {fs : List Field} {found here last : SearchPart},
      (last.alternatives ≠ [] ↔ (found.append here).alternatives ≠ [] ∨ ∃ g ∈ fs, Bears ctx g) →
      (here.alternatives ≠ [] ↔ Bears ctx f) →
      (last.alternatives ≠ [] ↔ found.alternatives ≠ [] ∨ ∃ g ∈ f :: fs, Bears ctx g) := by
    intro f fs found here last rest own
    rw [rest, SearchPart.append_ne_nil, own, or_assoc]
    simp only [List.mem_cons, or_and_right, exists_or, exists_eq_left]
  induction search with
  | done => simp
  | column plain searched rest ih =>
    obtain ⟨lhs, expr, rfl⟩ := searchColumn_eq_ok searched
    exact step ih (iff_of_true (List.cons_ne_nil _ _) (.column plain))
  | joined relation target fresh registered behind rest ihBehind ih =>
    refine step ih ?_
    rw [alternatives_behindPath, bears_relation_iff relation target]
    simpa using ihBehind
  | barren relation target fresh unregistered behind rest ihBehind ih =>
    refine step ih ?_
    rw [bears_relation_iff relation target]
    simpa using ihBehind
  | nested relation target fresh unregistered behind framed rest ihBehind ih =>
    refine step ih (iff_of_true (List.cons_ne_nil _ _) ?_)
    rw [bears_relation_iff relation target]
    simpa using ihBehind.mp (List.cons_ne_nil _ _)

/-- The paths that a search goes through from a field on, with what was walked before in front of them:
    the path to a registered relation that leads to a searchable column, and the paths behind it. -/
inductive Sought (ctx : Context) : String → Field → String → Prop where
  | here {walked : String} {f g : Field} {related : Schema} (relation : f.isRelation = true)
      (target : (ctx.related f).result = .ok related)
      (registered : ctx.isRegistered (walked ++ f.name) = true)
      (searchable : g ∈ related.searchableFields) (bears : Bears ctx g) :
      Sought ctx walked f (walked ++ f.name)
  | behind {walked path : String} {f g : Field} {related : Schema} (relation : f.isRelation = true)
      (target : (ctx.related f).result = .ok related)
      (registered : ctx.isRegistered (walked ++ f.name) = true)
      (searchable : g ∈ related.searchableFields)
      (inner : Sought ctx (walked ++ f.name ++ ".") g path) : Sought ctx walked f path

namespace Sought

variable {ctx : Context} {walked path : String} {f : Field} {related : Schema}

theorem isRelation (sought : Sought ctx walked f path) : f.isRelation = true := by
  cases sought <;> assumption

theorem isRegistered (sought : Sought ctx walked f path) :
    ctx.isRegistered (walked ++ f.name) = true := by
  cases sought <;> assumption

theorem relation_iff (relation : f.isRelation = true) (target : (ctx.related f).result = .ok related)
    (registered : ctx.isRegistered (walked ++ f.name) = true) :
    Sought ctx walked f path ↔
      (path = walked ++ f.name ∧ ∃ g ∈ related.searchableFields, Bears ctx g) ∨
        ∃ g ∈ related.searchableFields, Sought ctx (walked ++ f.name ++ ".") g path := by
  constructor
  · intro sought
    cases sought with
    | here _ same _ searchable bears =>
      cases same.symm.trans target
      exact .inl ⟨rfl, _, searchable, bears⟩
    | behind _ same _ searchable inner =>
      cases same.symm.trans target
      exact .inr ⟨_, searchable, inner⟩
  · rintro (⟨rfl, g, searchable, bears⟩ | ⟨g, searchable, inner⟩)
    · exact .here relation target registered searchable bears
    · exact .behind relation target registered searchable inner

end Sought

/-- What is reported behind a registered relation: its own path if anything is found there. -/
theorem mem_paths_behindPath {inner : SearchPart} {path other : String} :
    other ∈ (inner.behindPath path).paths ↔
      (other = path ∧ inner.alternatives ≠ []) ∨ other ∈ inner.paths := by
  unfold SearchPart.behindPath
  by_cases none : inner.alternatives = []
  · simp [none]
  · simp [none, Text.mem_mergeNew]

/-- A search reports the paths that it goes through, and none inside a subselect. -/
theorem mem_paths_searched {ctx : Context} {term : String} {budget : Nat} {site : SearchSite}
    {fields : List Field} {found last : SearchPart} {path : String}
    (search : Searched ctx term budget site fields found last) :
    path ∈ last.paths ↔ path ∈ found.paths ∨
      ∃ walked, site.walked = some walked ∧ ∃ f ∈ fields, Sought ctx walked f path := by
  have step : ∀ {site : SearchSite} {f : Field} {fs : List Field} {found here last : SearchPart},
      (path ∈ last.paths ↔ path ∈ (found.append here).paths ∨
        ∃ walked, site.walked = some walked ∧ ∃ g ∈ fs, Sought ctx walked g path) →
      (path ∈ here.paths ↔ ∃ walked, site.walked = some walked ∧ Sought ctx walked f path) →
      (path ∈ last.paths ↔ path ∈ found.paths ∨
        ∃ walked, site.walked = some walked ∧ ∃ g ∈ f :: fs, Sought ctx walked g path) := by
    intro site f fs found here last rest own
    rw [rest, SearchPart.append, Text.mem_mergeNew, own, or_assoc, ← exists_or]
    simp only [List.mem_cons, or_and_right, exists_or, exists_eq_left, and_or_left]
  -- A relation that is not registered, or inside a subselect, is on no path.
  have unsought : ∀ {site : SearchSite} {f : Field}, ctx.registered? site.walked f.name = none →
      ¬ ∃ walked, site.walked = some walked ∧ Sought ctx walked f path := by
    rintro site f unregistered ⟨walked, reached, sought⟩
    rw [reached] at unregistered
    have known := sought.isRegistered
    rw [not_isRegistered_of_unregistered unregistered] at known
    cases known
  induction search with
  | done => simp
  | column plain searched rest ih =>
    obtain ⟨lhs, expr, rfl⟩ := searchColumn_eq_ok searched
    refine step ih (iff_of_false List.not_mem_nil ?_)
    rintro ⟨walked, _, sought⟩
    have relation := sought.isRelation
    rw [plain] at relation
    cases relation
  | @joined _ site f fs related own config found inner last relation target fresh registered behind rest
      ihBehind ih =>
    obtain ⟨walked, reached, rfl, _⟩ := registered?_eq_some.mp registered
    refine step ih ?_
    have inside : path ∈ inner.paths ↔
        ∃ g ∈ related.searchableFields, Sought ctx (walked ++ f.name ++ ".") g path := by
      simpa [SearchSite.behindJoin] using ihBehind
    rw [mem_paths_behindPath, inside, alternatives_searched behind, reached]
    simp [Sought.relation_iff relation target (isRegistered_of_registered registered)]
  | barren relation target fresh unregistered behind rest ihBehind ih =>
    refine step ih (iff_of_false ?_ (unsought unregistered))
    simpa [SearchSite.behindSelect] using ihBehind
  | nested relation target fresh unregistered behind framed rest ihBehind ih =>
    refine step ih (iff_of_false ?_ (unsought unregistered))
    simpa [SearchSite.behindSelect] using ihBehind

/-! ## Whole queries -/

/-- Whether the filters or the search of a query go through a registered path. -/
def Uses (ctx : Context) (q : Query) (schema : Schema) (path : String) : Prop :=
  (∃ flt ∈ q.filters,
    path ∈ (crossed ctx flt.path.rest flt.path.head schema "").takeWhile ctx.isRegistered) ∨
  q.term ≠ "" ∧ ∃ f ∈ schema.searchableFields, Sought ctx "" f path

theorem mem_paths_compileFilters {ctx : Context} {filters : List Filter} {subject : Subject}
    {table : Option String} {schema : Schema} {part : FilterPart} {path : String}
    (described : ctx.schemaOf subject = .ok schema)
    (ok : (compileFilters ctx filters subject table).result = .ok part) :
    path ∈ part.paths ↔ ∃ flt ∈ filters,
      path ∈ (crossed ctx flt.path.rest flt.path.head schema "").takeWhile ctx.isRegistered := by
  obtain ⟨_, found, again, walks, rfl⟩ := compileFilters_eq_ok.mp ok
  cases described.symm.trans again
  have each : List.Forall₂ (fun flt (n : Narrowing) => n.paths =
      (crossed ctx flt.path.rest flt.path.head schema "").takeWhile ctx.isRegistered) filters found :=
    walks.imp fun flt n walk => paths_narrowed (narrowed_of_narrow walk)
  simp only [Text.mem_mergeNew, List.not_mem_nil, false_or, List.mem_flatMap]
  constructor
  · rintro ⟨n, inFound, inside⟩
    obtain ⟨flt, member, same⟩ := exists_left_of_forall₂ each inFound
    exact ⟨flt, member, same ▸ inside⟩
  · rintro ⟨flt, member, inside⟩
    obtain ⟨n, inFound, same⟩ := exists_left_of_forall₂ (List.Forall₂.flip (R := flip _) each) member
    exact ⟨n, inFound, same.symm ▸ inside⟩

theorem mem_paths_compileSearch {ctx : Context} {term : String} {subject : Subject}
    {table : Option String} {schema : Schema} {part : SearchPart} {path : String}
    (described : ctx.schemaOf subject = .ok schema)
    (ok : (compileSearch ctx term subject table).result = .ok part) :
    path ∈ part.paths ↔ term ≠ "" ∧ ∃ f ∈ schema.searchableFields, Sought ctx "" f path := by
  rcases compileSearch_eq_ok ok with ⟨rfl, rfl⟩ | ⟨some, _, again, searched⟩
  · simp
  · cases described.symm.trans again
    rw [mem_paths_searched searched]
    simp [some, SearchSite.root]

/-- The paths that are joined for filters and search are those that these go through. -/
theorem Stages.Yield.mem_paths_iff {ctx : Context} {strict : Bool} {q : Query} {subject : Subject}
    {table : Option String} {c : Compiled} {s : Stages} (yields : s.Yield ctx strict q subject table c)
    {path : String} : path ∈ s.paths ↔ Uses ctx q s.schema path := by
  rw [Stages.paths, Text.mem_mergeNew, mem_paths_compileFilters yields.schema yields.filters,
    mem_paths_compileSearch yields.schema yields.search, Uses]

end RowQuery.Compile
