import RowQuery.Proofs.WhereStructure

/-!
# Scopes

Every qualified column of a compiled query names a table that is in scope where it stands: the root
table, a table that is joined, or the table of a subselect around it. The condition of a join sees the
root table, the tables joined before it and its own.

Filters, search, preloads and sorts each have a part in this. A relation that filters or search leave
to a join is one whose path they report, and the joins of these paths all start from the root table; a
sort joins what no one else has joined, from the table before. The one name that is not looked up is that
of a lenient sort which leads to no field: it is written as it stands.
-/

namespace RowQuery.Sql

/-- A column that is not qualified, or by one of the tables. -/
def Column.Within (tables : List String) (c : Column) : Prop := ∀ t ∈ c.table, t ∈ tables

/-- The columns of a condition are in scope. A subselect brings its table into the scope of what is
    selected and of its condition. -/
def Predicate.Within : List String → Predicate → Prop
  | tables, .test lhs _ => lhs.source.Within tables
  | tables, .anyLanguage c _ _ => c.Within tables
  | tables, .sameColumn a b => a.Within tables ∧ b.Within tables
  | tables, .hasText c _ => c.Within tables
  | tables, .and p q => p.Within tables ∧ q.Within tables
  | tables, .or p q => p.Within tables ∧ q.Within tables
  | tables, .group p => p.Within tables
  | tables, .inSelect lhs selected source p =>
    lhs.Within tables ∧ selected.Within (source :: tables) ∧ p.Within (source :: tables)

/-- An order key is in scope: its column, or the table before the last dot of a name that is written as
    it stands. -/
def OrderKey.Within (tables : List String) : OrderKey → Prop
  | .expr e => e.source.Within tables
  | .verbatim name => ∀ t ∈ (Path.ofText name).segments.dropLast.getLast?, t ∈ tables

/-- The columns of the condition of a join are in scope. -/
structure JoinStep.Within (tables : List String) (j : JoinStep) : Prop where
  left : j.left.Within tables
  right : j.right.Within tables
  discriminator : ∀ x ∈ j.discriminator, x.column.Within tables

/-- Each of several joined tables is in scope in its own condition and in those behind it. -/
def StepsWithin : List String → List JoinStep → Prop
  | _, [] => True
  | tables, j :: js => j.Within (j.table :: tables) ∧ StepsWithin (j.table :: tables) js

theorem Column.within_of {t : String} {tables : List String} (visible : t ∈ tables) (name : String) :
    (Column.of t name).Within tables := by
  rintro _ ⟨rfl⟩
  exact visible

theorem Column.Within.mono {c : Column} {ts us : List String} (within : c.Within ts) (sub : ts ⊆ us) :
    c.Within us := fun t named => sub (within t named)

theorem OrderKey.Within.mono {key : OrderKey} {ts us : List String} (within : key.Within ts)
    (sub : ts ⊆ us) : key.Within us := by
  cases key with
  | expr e => exact Column.Within.mono within sub
  | verbatim name => exact fun t named => sub (within t named)

theorem Predicate.Within.mono {p : Predicate} {ts us : List String} (within : p.Within ts)
    (sub : ts ⊆ us) : p.Within us := by
  induction p generalizing ts us with
  | test lhs t => exact Column.Within.mono within sub
  | anyLanguage c found pattern => exact Column.Within.mono within sub
  | sameColumn a b => exact ⟨within.1.mono sub, within.2.mono sub⟩
  | hasText c value => exact Column.Within.mono within sub
  | and p q ihp ihq => exact ⟨ihp within.1 sub, ihq within.2 sub⟩
  | or p q ihp ihq => exact ⟨ihp within.1 sub, ihq within.2 sub⟩
  | group p ih => exact ih within sub
  | inSelect lhs selected source p ih =>
    have inner := List.cons_subset_cons source sub
    exact ⟨within.1.mono sub, within.2.1.mono inner, ih within.2.2 inner⟩

/-- A condition is in scope if all its columns are, whatever its subselects bring in. -/
theorem Predicate.within_of_columns {p : Predicate} {tables : List String}
    (columns : ∀ c ∈ p.columns, c.Within tables) : p.Within tables := by
  induction p with
  | test lhs t => exact columns _ (by simp [Predicate.columns])
  | anyLanguage c found pattern => exact columns _ (by simp [Predicate.columns])
  | sameColumn a b =>
    exact ⟨columns a (by simp [Predicate.columns]), columns b (by simp [Predicate.columns])⟩
  | hasText c value => exact columns _ (by simp [Predicate.columns])
  | and p q ihp ihq | or p q ihp ihq =>
    exact ⟨ihp fun c member => columns c (by simp [Predicate.columns, member]),
      ihq fun c member => columns c (by simp [Predicate.columns, member])⟩
  | group p ih => exact ih columns
  | inSelect lhs selected source p ih =>
    have inner : tables ⊆ source :: tables := List.subset_cons_self _ _
    refine ⟨columns lhs (by simp [Predicate.columns]),
      (columns selected (by simp [Predicate.columns])).mono inner, ?_⟩
    exact (ih fun c member => columns c (by simp [Predicate.columns, member])).mono inner

theorem Predicate.within_anyOf {p : Predicate} {ps : List Predicate} {tables : List String}
    (each : ∀ q ∈ p :: ps, q.Within tables) : (anyOf p ps).Within tables := by
  induction ps generalizing p with
  | nil => exact each p (by simp)
  | cons q qs ih => exact ⟨each p (by simp), ih fun r member => each r (by simp [member])⟩

/-! ## Joined tables, one after the other -/

theorem JoinStep.Within.mono {j : JoinStep} {ts us : List String} (within : j.Within ts)
    (sub : ts ⊆ us) : j.Within us :=
  ⟨within.left.mono sub, within.right.mono sub, fun x member => (within.discriminator x member).mono sub⟩

theorem StepsWithin.mono {js : List JoinStep} {ts us : List String} (within : StepsWithin ts js)
    (sub : ts ⊆ us) : StepsWithin us js := by
  induction js generalizing ts us with
  | nil => trivial
  | cons j js ih =>
    have step := List.cons_subset_cons j.table sub
    exact ⟨within.1.mono step, ih within.2 step⟩

/-- What is joined behind other tables sees these. -/
theorem stepsWithin_append {tables : List String} {js ks : List JoinStep} :
    StepsWithin tables (js ++ ks) ↔
      StepsWithin tables js ∧ StepsWithin (js.map (·.table) ++ tables) ks := by
  induction js generalizing tables with
  | nil => simp [StepsWithin]
  | cons j js ih =>
    have same : StepsWithin (js.map (·.table) ++ j.table :: tables) ks ↔
        StepsWithin ((j :: js).map (·.table) ++ tables) ks := by
      constructor
      · intro within
        apply within.mono
        intro t member
        simp only [List.map_cons, List.cons_append, List.mem_cons, List.mem_append] at member ⊢
        tauto
      · intro within
        apply within.mono
        intro t member
        simp only [List.map_cons, List.cons_append, List.mem_cons, List.mem_append] at member ⊢
        tauto
    rw [List.cons_append, StepsWithin, ih, same, StepsWithin, and_assoc]

theorem mem_tables_flatten {clauses : List JoinClause} {clause : JoinClause} {t : String}
    (member : clause ∈ clauses) (inside : t ∈ clause.map (·.table)) :
    t ∈ clauses.flatten.map (·.table) := by
  obtain ⟨j, inClause, rfl⟩ := List.mem_map.mp inside
  exact List.mem_map.mpr ⟨j, List.mem_flatten.mpr ⟨clause, member, inClause⟩, rfl⟩

/-- Joins stay in scope when those that repeat are left out: what a repeated one brings in is there. -/
theorem stepsWithin_mergeNew {tables : List String} {seen clauses : List JoinClause}
    (within : StepsWithin tables (seen ++ clauses).flatten) :
    StepsWithin tables (Text.mergeNew seen clauses).flatten := by
  unfold Text.mergeNew
  induction clauses generalizing seen with
  | nil => simpa using within
  | cons clause clauses ih =>
    rw [List.foldl_cons]
    by_cases repeated : clause ∈ seen
    · rw [if_pos repeated]
      apply ih
      rw [List.flatten_append, List.flatten_cons, stepsWithin_append, stepsWithin_append] at within
      rw [List.flatten_append, stepsWithin_append]
      refine ⟨within.1, within.2.2.mono ?_⟩
      intro t member
      rcases List.mem_append.mp member with own | before
      · exact List.mem_append_left _ (mem_tables_flatten repeated own)
      · exact before
    · rw [if_neg repeated]
      apply ih
      simpa using within

/-- Joins that are in scope by themselves are in scope one behind the other. -/
theorem stepsWithin_flatMap {α : Type} {tables : List String} {xs : List α} {f : α → List JoinClause}
    (each : ∀ x ∈ xs, StepsWithin tables (f x).flatten) : StepsWithin tables (xs.flatMap f).flatten := by
  induction xs with
  | nil => trivial
  | cons x xs ih =>
    rw [List.flatMap_cons, List.flatten_append, stepsWithin_append]
    refine ⟨each x (by simp), ?_⟩
    apply (ih fun y member => each y (by simp [member])).mono
    exact List.subset_append_right _ _

theorem mem_tables_mergeNew {seen clauses : List JoinClause} {t : String} :
    t ∈ (Text.mergeNew seen clauses).flatten.map (·.table) ↔
      t ∈ seen.flatten.map (·.table) ∨ t ∈ clauses.flatten.map (·.table) := by
  simp only [List.mem_map, List.mem_flatten, Text.mem_mergeNew]
  constructor
  · rintro ⟨j, ⟨clause, old | new, inside⟩, rfl⟩
    · exact .inl ⟨j, ⟨clause, old, inside⟩, rfl⟩
    · exact .inr ⟨j, ⟨clause, new, inside⟩, rfl⟩
  · rintro (⟨j, ⟨clause, old, inside⟩, rfl⟩ | ⟨j, ⟨clause, new, inside⟩, rfl⟩)
    · exact ⟨j, ⟨clause, .inl old, inside⟩, rfl⟩
    · exact ⟨j, ⟨clause, .inr new, inside⟩, rfl⟩

end RowQuery.Sql

namespace RowQuery.Compile

open RowQuery.Schema RowQuery.Sql RowQuery.Join

/-- The configuration that a path is registered with. -/
def Context.config? (ctx : Context) (path : String) : Option Config := ctx.registry.bind (·.get? path)

/-- A relation is left to a join where joins reach and the path to it is registered. -/
theorem registered?_eq_some {ctx : Context} {walked : Option String} {name path : String}
    {config : Config} :
    ctx.registered? walked name = some (path, config) ↔
      ∃ reached, walked = some reached ∧ path = reached ++ name ∧ ctx.config? path = some config := by
  unfold Context.registered? Context.config?
  cases walked with
  | none => simp
  | some reached =>
    cases ctx.registry with
    | none => simp
    | some r =>
      simp only [Option.bind_eq_bind, Option.bind_some, Option.bind_eq_some_iff, Option.pure_def,
        Option.some.injEq, Prod.mk.injEq, exists_eq_left']
      constructor
      · rintro ⟨_, found, rfl, rfl⟩
        exact ⟨rfl, found⟩
      · rintro ⟨rfl, found⟩
        exact ⟨config, found, rfl, rfl⟩

theorem config?_of_registered {ctx : Context} {walked : Option String} {name path : String}
    {config : Config} (registered : ctx.registered? walked name = some (path, config)) :
    ctx.config? path = some config := by
  obtain ⟨_, _, _, known⟩ := registered?_eq_some.mp registered
  exact known

/-! ## Conditions -/

/-- The subselect of a relation is in scope where its outer table is, if the condition in it is. -/
theorem within_nest {settings : Settings} {f : Field} {outer related : String} {frames : List Frame}
    {p : Predicate} {tables : List String} (framed : Framed settings f outer related frames)
    (visible : outer ∈ tables) (inner : p.Within (related :: tables)) :
    (Frame.nest frames p).Within tables := by
  have own : ∀ name, (Column.of related name).Within (related :: tables) :=
    Column.within_of List.mem_cons_self
  have enclosing : ∀ name, (Column.of outer name).Within (related :: tables) :=
    Column.within_of (List.mem_cons_of_mem _ visible)
  cases framed with
  | direct => exact ⟨Column.within_of visible _, own _, inner⟩
  | @pivot _ _ pivot =>
    have unqualified : ∀ name bare us, Column.Within us ⟨none, name, bare⟩ := by
      intro name bare us t named
      cases named
    refine ⟨?_, unqualified _ _ _, unqualified _ _ _, unqualified _ _ _, inner.mono ?_⟩
    · rintro _ ⟨rfl⟩
      exact visible
    · exact List.cons_subset_cons related (List.subset_cons_self pivot tables)
  | polymorphic =>
    exact ⟨Column.within_of visible _, own _, ⟨inner, own _, enclosing _⟩, own _⟩

theorem within_alternatives {f : Field} {p : Predicate} {ps : List Predicate} {tables : List String}
    (each : ∀ q ∈ p :: ps, q.Within tables) : (alternativesCondition f p ps).Within tables := by
  unfold alternativesCondition
  split
  · exact Predicate.within_anyOf each
  · exact Predicate.within_anyOf each

/-- The condition of a filter is in scope where its site's table and those of the paths that it leaves
    to joins are. -/
theorem within_narrowed {ctx : Context} {flt : Filter} {rest : List String} {head : String}
    {site : Site} {n : Narrowing} {tables : List String} (walk : Narrowed ctx flt rest head site n)
    (here : site.table ∈ tables)
    (joined : ∀ path ∈ n.paths, ∀ config ∈ ctx.config? path, config.table ∈ tables) :
    n.condition.Within tables := by
  have qualified : ∀ {site : Site} {us : List String} (name : String), site.table ∈ us →
      Column.Within us ⟨site.qualifier, name, false⟩ := by
    intro site us name here t named
    unfold Site.qualifier at named
    split at named
    · cases named
      exact here
    · cases named
  induction walk generalizing tables with
  | leaf shallow found column condition =>
    apply Predicate.within_of_columns
    intro c member
    rw [columns_leafCondition (leafCondition_eq_ok condition) c member]
    exact qualified _ here
  | inner shallow found column expr test =>
    have source := source_innerExpr expr
    show Column.Within _ _
    rw [source]
    exact qualified _ here
  | joined shallow found relation target registered rest ih =>
    have known := config?_of_registered registered
    refine ih (joined _ (by simp) _ known) ?_
    intro path member
    exact joined path (by simp [member])
  | nested shallow found relation target unregistered rest framed ih =>
    refine within_nest (framed_of_relationFrames framed) here (ih (List.mem_cons_self) ?_)
    intro path member config known
    exact List.mem_cons_of_mem _ (joined path member config known)

/-- A search loses no path that it has found. -/
theorem paths_searched {ctx : Context} {term : String} {budget : Nat} {site : SearchSite}
    {fields : List Field} {found last : SearchPart}
    (search : Searched ctx term budget site fields found last) : found.paths ⊆ last.paths := by
  have grows : ∀ before new : SearchPart, before.paths ⊆ (before.append new).paths := by
    intro before new path member
    exact Text.mem_mergeNew.mpr (.inl member)
  induction search with
  | done => exact List.Subset.refl _
  | column plain searched rest ih => exact List.Subset.trans (grows _ _) ih
  | joined relation target fresh registered behind rest ihBehind ih =>
    exact List.Subset.trans (grows _ _) ih
  | barren relation target fresh unregistered behind rest ihBehind ih =>
    exact List.Subset.trans (grows _ _) ih
  | nested relation target fresh unregistered behind framed rest ihBehind ih =>
    exact List.Subset.trans (grows _ _) ih

/-- The alternatives of a search are in scope where its site's table and those of the paths that it
    reports are. -/
theorem within_searched {ctx : Context} {term : String} {budget : Nat} {site : SearchSite}
    {fields : List Field} {found last : SearchPart} {tables : List String}
    (search : Searched ctx term budget site fields found last) (here : site.table ∈ tables)
    (joined : ∀ path ∈ last.paths, ∀ config ∈ ctx.config? path, config.table ∈ tables)
    (before : ∀ p ∈ found.alternatives, p.Within tables) :
    ∀ p ∈ last.alternatives, p.Within tables := by
  induction search generalizing tables with
  | done => exact before
  | column plain searched rest ih =>
    obtain ⟨lhs, expr, rfl⟩ := searchColumn_eq_ok searched
    refine ih here joined (List.forall_mem_append.mpr ⟨before, ?_⟩)
    intro p member
    cases List.mem_singleton.mp member
    show Column.Within _ _
    rw [source_expr expr]
    exact Column.within_of here _
  | @joined _ _ _ _ _ path config found inner last relation target fresh registered behind rest ihBehind ih =>
    refine ih here joined (List.forall_mem_append.mpr ⟨before, ?_⟩)
    rw [alternatives_behindPath]
    intro p member
    -- Since there is an alternative behind the relation, its path is reported.
    have reported : ∀ q, q = path ∨ q ∈ inner.paths → q ∈ last.paths := by
      intro q inside
      apply paths_searched rest
      refine Text.mem_mergeNew.mpr (.inr ?_)
      rw [SearchPart.behindPath, if_neg (by simpa using List.ne_nil_of_mem member)]
      exact Text.mem_mergeNew.mpr (inside.imp (by simp) id)
    refine ihBehind ?_ ?_ (by simp) p member
    · exact joined path (reported path (.inl rfl)) config (config?_of_registered registered)
    · intro q inside
      exact joined q (reported q (.inr inside))
  | barren relation target fresh unregistered behind rest ihBehind ih =>
    refine ih here joined (List.forall_mem_append.mpr ⟨before, ?_⟩)
    simp
  | @nested _ _ _ _ related p ps paths frames _ last relation target fresh unregistered behind framed
      rest ihBehind ih =>
    refine ih here joined (List.forall_mem_append.mpr ⟨before, ?_⟩)
    intro q member
    cases List.mem_singleton.mp member
    apply within_nest (framed_of_relationFrames framed) here
    apply within_alternatives
    refine ihBehind List.mem_cons_self ?_ (by simp)
    intro path inside config known
    refine List.mem_cons_of_mem _ (joined path ?_ config known)
    exact paths_searched rest (Text.mem_mergeNew.mpr (.inr inside))

/-! ## Registered paths -/

/-- The paths that a filter leaves to joins are registered. -/
theorem registered_narrowed {ctx : Context} {flt : Filter} {rest : List String} {head : String}
    {site : Site} {n : Narrowing} (walk : Narrowed ctx flt rest head site n) :
    ∀ path ∈ n.paths, ∃ config, ctx.config? path = some config := by
  induction walk with
  | leaf | inner => simp
  | @joined _ _ path _ _ _ _ config _ _ _ _ _ registered _ ih =>
    intro other member
    rcases List.mem_cons.mp member with rfl | behind
    · exact ⟨config, config?_of_registered registered⟩
    · exact ih other behind
  | nested shallow found relation target unregistered rest framed ih => exact ih

/-- So are those that a search reports. -/
theorem registered_searched {ctx : Context} {term : String} {budget : Nat} {site : SearchSite}
    {fields : List Field} {found last : SearchPart}
    (search : Searched ctx term budget site fields found last)
    (before : ∀ path ∈ found.paths, ∃ config, ctx.config? path = some config) :
    ∀ path ∈ last.paths, ∃ config, ctx.config? path = some config := by
  have both : ∀ {old new : SearchPart},
      (∀ path ∈ old.paths, ∃ config, ctx.config? path = some config) →
      (∀ path ∈ new.paths, ∃ config, ctx.config? path = some config) →
      ∀ path ∈ (old.append new).paths, ∃ config, ctx.config? path = some config := by
    intro old new fromOld fromNew path member
    rcases Text.mem_mergeNew.mp member with inOld | inNew
    · exact fromOld path inOld
    · exact fromNew path inNew
  induction search with
  | done => exact before
  | column plain searched rest ih =>
    obtain ⟨lhs, expr, rfl⟩ := searchColumn_eq_ok searched
    exact ih (both before (by simp))
  | @joined _ _ _ _ _ path config _ inner _ relation target fresh registered behind rest ihBehind ih =>
    have inside := ihBehind (by simp)
    refine ih (both before ?_)
    unfold SearchPart.behindPath
    split
    · exact inside
    · intro other member
      rcases Text.mem_mergeNew.mp member with own | behind
      · cases List.mem_singleton.mp own
        exact ⟨config, config?_of_registered registered⟩
      · exact inside other behind
  | barren relation target fresh unregistered behind rest ihBehind ih =>
    exact ih (both before (ihBehind (by simp)))
  | nested relation target fresh unregistered behind framed rest ihBehind ih =>
    exact ih (both before (ihBehind (by simp)))

/-- Sorts use the registry that a path is registered in. -/
theorem sortRegistry_of_config? {ctx : Context} {path : String} {config : Config}
    (known : ctx.config? path = some config) :
    ctx.registry = some ctx.sortRegistry ∧ ctx.sortRegistry.get? path = some config := by
  unfold Context.config? at known
  unfold Context.sortRegistry
  cases registry : ctx.registry with
  | none => simp [registry] at known
  | some r =>
    have found : r.get? path = some config := by simpa [registry] using known
    have some : r.isEmpty = false := by
      cases entries : r.entries with
      | nil => simp [Registry.get?, entries] at found
      | cons e es => simp [Registry.isEmpty, entries]
    simp [some, found]

/-! ## Joins -/

/-- A clause is in scope where the table it starts from is. It brings in the table of the configuration,
    of which its discriminator speaks. -/
theorem within_claused {settings : Settings} {base : String} {config : Config} {clause : JoinClause}
    {type : Option Discriminator} {tables : List String}
    (made : Claused settings base config clause type) (here : base ∈ tables) :
    StepsWithin tables clause ∧ config.table ∈ clause.map (·.table) ∧
      ∀ x ∈ type, x.column.Within [config.table] := by
  have outer : ∀ {t us} name, t ∈ us → (Column.of t name).Within us := fun name visible =>
    Column.within_of visible name
  cases made with
  | direct plan =>
    exact ⟨⟨⟨outer _ (by simp [here]), outer _ (by simp), by simp⟩, trivial⟩, by simp, by simp⟩
  | pivot plan named =>
    exact ⟨⟨⟨outer _ (by simp [here]), outer _ (by simp), by simp⟩,
      ⟨outer _ (by simp), outer _ (by simp), by simp⟩, trivial⟩, by simp, by simp⟩
  | polymorphic plan named =>
    refine ⟨⟨⟨outer _ (by simp [here]), outer _ (by simp), by simp⟩, trivial⟩, by simp, ?_⟩
    rintro _ ⟨rfl⟩
    exact outer _ (by simp)

theorem inline_concat (steps : JoinClause) (last : JoinStep) (x : Discriminator) :
    Registry.inline (steps ++ [last]) (some x) = steps ++ [{ last with discriminator := some x }] := by
  simp [Registry.inline]

/-- A discriminator changes nothing else of a clause. -/
theorem map_inline {α : Type} {f : JoinStep → α}
    (blind : ∀ (j : JoinStep) (x : Option Discriminator), f { j with discriminator := x } = f j)
    (clause : JoinClause) (type : Option Discriminator) :
    (Registry.inline clause type).map f = clause.map f := by
  cases type with
  | none => rfl
  | some x =>
    rcases List.eq_nil_or_concat clause with rfl | ⟨steps, last, rfl⟩
    · rfl
    · rw [List.concat_eq_append, inline_concat]
      simp [blind]

theorem map_table_inline (clause : JoinClause) (type : Option Discriminator) :
    (Registry.inline clause type).map (·.table) = clause.map (·.table) :=
  map_inline (fun _ _ => rfl) clause type

/-- A discriminator that speaks of the tables of a clause can stand in it. -/
theorem stepsWithin_inline {clause : JoinClause} {type : Option Discriminator} {tables : List String}
    (within : StepsWithin tables clause)
    (speaks : ∀ x ∈ type, x.column.Within (clause.map (·.table) ++ tables)) :
    StepsWithin tables (Registry.inline clause type) := by
  cases type with
  | none => exact within
  | some x =>
    rcases List.eq_nil_or_concat clause with rfl | ⟨steps, last, rfl⟩
    · trivial
    · have named := speaks x rfl
      rw [List.concat_eq_append] at within named ⊢
      rw [stepsWithin_append] at within
      rw [inline_concat, stepsWithin_append]
      refine ⟨within.1, ⟨within.2.1.left, within.2.1.right, ?_⟩, trivial⟩
      rintro _ ⟨rfl⟩
      apply named.mono
      intro t member
      simp only [List.map_append, List.map_cons, List.map_nil, List.mem_append, List.mem_cons,
        List.not_mem_nil, or_false] at member ⊢
      tauto

/-- The join of a configuration is in scope where the table it starts from is. It brings in the table of
    the configuration, of which its discriminator speaks. -/
theorem within_join {settings : Settings} {r : Registry} {base : String} {config : Config}
    {inlined : Bool} {x : JoinClause × Option Discriminator} {tables : List String}
    (ok : r.join settings base config inlined = .ok x) (here : base ∈ tables) :
    StepsWithin tables x.1 ∧ config.table ∈ x.1.map (·.table) ∧
      ∀ y ∈ x.2, y.column.Within [config.table] := by
  obtain ⟨_, _, clause, type, made, rfl⟩ := join_eq_ok.mp ok
  obtain ⟨within, table, speaks⟩ := within_claused made here
  cases inlined with
  | false => exact ⟨within, table, speaks⟩
  | true =>
    have own : [config.table] ⊆ clause.map (·.table) ++ tables := by simp [List.mem_map.mp table]
    refine ⟨stepsWithin_inline within fun y member => (speaks y member).mono own, ?_, by simp⟩
    rw [if_pos rfl, map_table_inline]
    exact table

/-- The joins of registered paths all start from one table. They bring in the tables of all paths, and
    their discriminators speak of these. -/
theorem within_joins {settings : Settings} {r : Registry} {base : String} {paths : List String}
    {inlined : Bool} {clauses : List JoinClause} {types : List Discriminator} {tables : List String}
    (ok : r.joins settings base paths inlined = .ok (clauses, types)) (here : base ∈ tables) :
    StepsWithin tables clauses.flatten ∧
      (∀ path ∈ paths, ∀ config ∈ r.get? path, config.table ∈ clauses.flatten.map (·.table)) ∧
      ∀ y ∈ types, y.column.Within (clauses.flatten.map (·.table)) := by
  obtain ⟨found, each, rfl, rfl⟩ := joins_eq_ok.mp ok
  have brought : ∀ x ∈ found, ∀ t ∈ x.1.map (·.table),
      t ∈ (Text.mergeNew [] (found.map (·.1))).flatten.map (·.table) := by
    intro x member t inside
    exact mem_tables_mergeNew.mpr (.inr (mem_tables_flatten (List.mem_map.mpr ⟨x, member, rfl⟩) inside))
  refine ⟨?_, ?_, ?_⟩
  · apply stepsWithin_mergeNew
    rw [List.nil_append, ← List.flatMap_singleton' (found.map (·.1)), List.flatMap_map]
    apply stepsWithin_flatMap
    intro x member
    obtain ⟨path, _, config, _, joined⟩ := exists_left_of_forall₂ each member
    simpa using (within_join joined here).1
  · intro path member config known
    obtain ⟨x, inFound, other, same, joined⟩ :=
      exists_left_of_forall₂ (List.Forall₂.flip (R := flip _) each) member
    cases Option.some.inj (Eq.trans (Eq.symm same) known)
    exact brought x inFound _ (within_join joined here).2.1
  · intro y member
    simp only [Text.mem_mergeNew, List.not_mem_nil, false_or, List.mem_filterMap] at member
    obtain ⟨x, inFound, same⟩ := member
    obtain ⟨path, _, config, _, joined⟩ := exists_left_of_forall₂ each inFound
    obtain ⟨_, table, type⟩ := within_join joined here
    apply (type y same).mono
    intro t inside
    cases List.mem_singleton.mp inside
    exact brought x inFound _ table

/-- The joins of a request start from its root table and bring in the tables of the paths. -/
theorem within_requestJoins {ctx : Context} {table : String} {paths preloads : List String}
    {clauses : List JoinClause} {types : List Discriminator}
    (ok : requestJoins ctx table paths preloads = .ok (clauses, types)) :
    StepsWithin [table] clauses.flatten ∧
      (∀ path ∈ paths, ∀ config ∈ ctx.config? path, config.table ∈ clauses.flatten.map (·.table)) ∧
      ∀ y ∈ types, y.column.Within (clauses.flatten.map (·.table)) := by
  rcases requestJoins_eq_ok.mp ok with
    ⟨none, rfl, rfl⟩ | ⟨r, needed, loaded, further, registry, joined, preloaded, rfl⟩
  · refine ⟨trivial, ?_, by simp⟩
    intro path member config known
    simp [Context.config?, none] at known
  · obtain ⟨within, tables, speaks⟩ := within_joins joined (List.mem_singleton_self table)
    obtain ⟨behind, _, _⟩ := within_joins preloaded (List.mem_singleton_self table)
    refine ⟨?_, ?_, ?_⟩
    · apply stepsWithin_mergeNew
      rw [List.flatten_append, stepsWithin_append]
      exact ⟨within, behind.mono (List.subset_append_right _ _)⟩
    · intro path member config known
      have found : r.get? path = some config := by simpa [Context.config?, registry] using known
      exact mem_tables_mergeNew.mpr (.inl (tables path member config found))
    · intro y member
      apply (speaks y member).mono
      intro t inside
      exact mem_tables_mergeNew.mpr (.inl inside)

/-! ## Sorts -/

/-- The joins of a sort are in scope where its site's table and those of the joined paths are, and its
    key is where its joins are as well. -/
theorem within_keyed {ctx : Context} {mode : SortMode} {name : String} {rest : List String}
    {head : String} {site : SortSite} {e : Expr} {joins : List JoinClause} {tables : List String}
    (walk : Keyed ctx mode name rest head site e joins) (here : site.table ∈ tables)
    (joined : ∀ path ∈ mode.joined, ∃ config, ctx.sortRegistry.get? path = some config ∧
      config.table ∈ tables) :
    StepsWithin tables joins.flatten ∧ e.source.Within (joins.flatten.map (·.table) ++ tables) := by
  induction walk generalizing tables with
  | leaf shallow found column expr =>
    refine ⟨trivial, ?_⟩
    rw [source_expr expr]
    exact Column.within_of here _
  | inner shallow found column expr =>
    refine ⟨trivial, ?_⟩
    rw [source_innerExpr expr]
    exact Column.within_of here _
  | @joined next head more site f related config own joins e shallow found relation target configured
      clause rest ih =>
    unfold sortClause at clause
    split at clause
    case isTrue already =>
      cases clause
      obtain ⟨other, registered, visible⟩ := joined _ already
      have same : config = other := by
        simp only [sortConfig, registered, Except.ok.injEq] at configured
        exact configured.symm
      obtain ⟨within, key⟩ := ih (by rw [← same] at visible; exact visible) joined
      refine ⟨stepsWithin_mergeNew within, key.mono ?_⟩
      intro t member
      rcases List.mem_append.mp member with brought | outer
      · exact List.mem_append_left _ (mem_tables_mergeNew.mpr (.inr brought))
      · exact List.mem_append_right _ outer
    case isFalse first =>
      obtain ⟨⟨made, type⟩, join, rfl⟩ := map_eq_ok.mp clause
      obtain ⟨within, table, _⟩ := within_join join here
      have wider : tables ⊆ made.map (·.table) ++ tables := List.subset_append_right _ _
      obtain ⟨behind, key⟩ := ih (List.mem_append_left _ table) fun path member => by
        obtain ⟨other, registered, visible⟩ := joined path member
        exact ⟨other, registered, wider visible⟩
      constructor
      · apply stepsWithin_mergeNew
        rw [List.singleton_append, List.flatten_cons, stepsWithin_append]
        exact ⟨within, behind⟩
      · apply key.mono
        intro t member
        rcases List.mem_append.mp member with brought | outer
        · exact List.mem_append_left _ (mem_tables_mergeNew.mpr (.inr brought))
        · rcases List.mem_append.mp outer with own | outer
          · refine List.mem_append_left _ (mem_tables_mergeNew.mpr (.inl ?_))
            simpa using own
          · exact List.mem_append_right _ outer

/-! ## Whole queries -/

/-- The tables that a compiled query selects from: its root table and those that are joined. -/
def Compiled.visible (c : Compiled) : List String := c.joins.flatten.map (·.table) ++ [c.table]

/-- The selected expressions, the conditions and the joins of a compiled query are in scope. -/
structure Compiled.Scoped (c : Compiled) : Prop where
  select : ∀ s ∈ c.select, s.expr.source.Within c.visible
  filters : ∀ p ∈ c.filters, p.Within c.visible
  search : ∀ p ∈ c.search, p.Within c.visible
  discriminators : ∀ x ∈ c.discriminators, x.predicate.Within c.visible
  joins : StepsWithin [c.table] c.joins.flatten

/-- A sort whose name leads to no field of the subject. -/
def Unmatched (ctx : Context) (subject : Subject) (table : String) (sort : Sorting) : Prop :=
  ∃ schema mode, ctx.schemaOf subject = .ok schema ∧ ∃ entity field path,
    (sortKey ctx mode sort.name sort.path.rest sort.path.head
      { schema, table, walked := "", depth := 0 }).result = .error (.fieldNotFound entity field path)

namespace Stages.Yield

variable {ctx : Context} {strict : Bool} {q : Query} {subject : Subject} {table : Option String}
  {c : Compiled} {s : Stages}

/-- The filters of a compiled query come from one walk each, and the paths that these report are among
    those of the query. -/
theorem walked (yields : s.Yield ctx strict q subject table c) :
    ∃ found : List Narrowing, c.filters = found.map (·.condition) ∧
      s.filters.paths = Text.mergeNew [] (found.flatMap (·.paths)) ∧
      List.Forall₂ (fun flt n => Narrowed ctx flt flt.path.rest flt.path.head (.root s.schema c.table) n)
        q.filters found := by
  obtain ⟨schema, found, described, walks, same⟩ := compileFilters_eq_ok.mp yields.filters
  cases described.symm.trans yields.schema
  rw [rootTable_rootTable] at walks
  rw [yields.compiled]
  refine ⟨found, by rw [same], by rw [same], walks.imp fun flt n walk => ?_⟩
  exact narrowed_of_narrow walk

/-- What a walk of a filter reports is among the paths of the query. -/
theorem mem_paths_of_walk {found : List Narrowing} {n : Narrowing} {path : String}
    (reported : s.filters.paths = Text.mergeNew [] (found.flatMap (·.paths))) (inFound : n ∈ found)
    (inside : path ∈ n.paths) : path ∈ s.paths := by
  refine Text.mem_mergeNew.mpr (.inl ?_)
  rw [reported]
  exact Text.mem_mergeNew.mpr (.inr (List.mem_flatMap.mpr ⟨n, inFound, inside⟩))

/-- All paths that filters and search go through are registered. -/
theorem registered (yields : s.Yield ctx strict q subject table c) :
    ∀ path ∈ s.paths, ∃ config, ctx.config? path = some config := by
  intro path member
  rcases Text.mem_mergeNew.mp member with inFilters | inSearch
  · obtain ⟨found, _, same, walks⟩ := yields.walked
    simp only [same, Text.mem_mergeNew, List.not_mem_nil, false_or, List.mem_flatMap] at inFilters
    obtain ⟨n, inFound, inside⟩ := inFilters
    obtain ⟨flt, _, walk⟩ := exists_left_of_forall₂ walks inFound
    exact registered_narrowed walk path inside
  · rcases yields.searched.2 with none | searched
    · rw [none] at inSearch
      cases inSearch
    · exact registered_searched searched (by simp) path inSearch

/-- A request's own joins are in scope, and so are the discriminators beside them. -/
theorem within_requested (yields : s.Yield ctx strict q subject table c) :
    StepsWithin [c.table] s.joins.flatten ∧
      (∀ path ∈ s.paths, ∀ config ∈ ctx.config? path, config.table ∈ s.joins.flatten.map (·.table)) ∧
      ∀ x ∈ c.discriminators, x.column.Within (s.joins.flatten.map (·.table)) := by
  rw [yields.compiled]
  exact within_requestJoins yields.joins

/-- Every sort has a key in scope, with joins that are, or it is lenient and its name leads to no field. -/
theorem within_sorts (yields : s.Yield ctx strict q subject table c) :
    StepsWithin (s.joins.flatten.map (·.table) ++ [c.table]) s.sorts.joins.flatten ∧
      List.Forall₂ (fun sort term => term.key.Within
          (s.sorts.joins.flatten.map (·.table) ++ (s.joins.flatten.map (·.table) ++ [c.table])) ∨
        strict = false ∧ Unmatched ctx subject c.table sort ∧
          term.key = .verbatim sort.name) q.sorts c.order := by
  have root : rootTable s.schema (some (rootTable s.schema table)) = c.table := by
    rw [rootTable_rootTable, yields.compiled]
  obtain ⟨schema, found, described, walks, same⟩ := compileSorts_eq_ok yields.sorts
  cases described.symm.trans yields.schema
  rw [root] at walks
  obtain ⟨_, brought, _⟩ := yields.within_requested
  have joined : ∀ path ∈ s.paths, ∃ config, ctx.sortRegistry.get? path = some config ∧
      config.table ∈ s.joins.flatten.map (·.table) ++ [c.table] := by
    intro path member
    obtain ⟨config, known⟩ := yields.registered path member
    exact ⟨config, (sortRegistry_of_config? known).2,
      List.mem_append_left _ (brought path member config known)⟩
  have here : c.table ∈ s.joins.flatten.map (·.table) ++ [c.table] := by simp
  have each : List.Forall₂ (fun sort x =>
      StepsWithin (s.joins.flatten.map (·.table) ++ [c.table]) x.2.flatten ∧
      (x.1.key.Within (x.2.flatten.map (·.table) ++ (s.joins.flatten.map (·.table) ++ [c.table])) ∨
        strict = false ∧ Unmatched ctx subject c.table sort ∧
          x.1.key = .verbatim sort.name)) q.sorts found := by
    refine walks.imp fun sort x walk => ?_
    rcases sortTerm_eq_ok walk with ⟨e, keyed, key⟩ | ⟨lenient, _, unmatched, rfl⟩
    · obtain ⟨within, inScope⟩ := within_keyed keyed here joined
      refine ⟨within, .inl ?_⟩
      rw [key]
      exact inScope
    · exact ⟨trivial, .inr ⟨lenient, ⟨_, _, described, unmatched⟩, rfl⟩⟩
  have order : c.order = found.map (·.1) := by rw [yields.compiled, same]
  rw [same, order]
  constructor
  · apply stepsWithin_mergeNew
    rw [List.nil_append]
    apply stepsWithin_flatMap
    intro x member
    obtain ⟨_, _, within, _⟩ := exists_left_of_forall₂ each member
    exact within
  · rw [List.forall₂_map_right_iff, List.forall₂_iff_zip]
    rw [List.forall₂_iff_zip] at each
    refine ⟨each.1, fun {sort x} paired => ?_⟩
    obtain ⟨_, inScope | unmatched⟩ := each.2 paired
    · refine .inl (inScope.mono ?_)
      intro t member
      rcases List.mem_append.mp member with own | outer
      · refine List.mem_append_left _ (mem_tables_mergeNew.mpr (.inr ?_))
        obtain ⟨j, inside, rfl⟩ := List.mem_map.mp own
        obtain ⟨clause, inSort, inClause⟩ := List.mem_flatten.mp inside
        have made := List.mem_flatMap.mpr ⟨x, (List.of_mem_zip paired).2, inSort⟩
        exact mem_tables_flatten made (List.mem_map.mpr ⟨j, inClause, rfl⟩)
      · exact List.mem_append_right _ outer
    · exact .inr unmatched

end Stages.Yield

/-- Every qualified column of a compiled query is in scope where it stands, in what is selected, in the
    conditions, in those of the joins, and in the order. Only a lenient sort whose name leads to no field
    is written as it stands. -/
theorem compileQuery_scoped {ctx : Context} {strict : Bool} {q : Query} {subject : Subject}
    {table : Option String} {c : Compiled}
    (ok : (compileQuery ctx strict q subject table).result = .ok c) :
    c.Scoped ∧ List.Forall₂ (fun sort term => term.key.Within c.visible ∨
      strict = false ∧ Unmatched ctx subject c.table sort ∧ term.key = .verbatim sort.name)
      q.sorts c.order := by
  obtain ⟨s, yields⟩ := compileQuery_eq_ok ok
  obtain ⟨requested, brought, speaks⟩ := yields.within_requested
  obtain ⟨sorted, order⟩ := yields.within_sorts
  have joins : c.joins = Text.mergeNew s.joins s.sorts.joins := by rw [yields.compiled]
  have root : c.table ∈ c.visible := by simp [Compiled.visible]
  have needed : s.joins.flatten.map (·.table) ⊆ c.visible := by
    intro t member
    rw [Compiled.visible, joins]
    exact List.mem_append_left _ (mem_tables_mergeNew.mpr (.inl member))
  have joined : ∀ path ∈ s.paths, ∀ config ∈ ctx.config? path, config.table ∈ c.visible :=
    fun path member config known => needed (brought path member config known)
  refine ⟨?_, order.imp fun sort term => Or.imp_left fun within => within.mono ?_⟩
  · constructor
    case filters =>
      obtain ⟨found, conditions, reported, walks⟩ := yields.walked
      rw [conditions]
      intro p member
      obtain ⟨n, inFound, rfl⟩ := List.mem_map.mp member
      obtain ⟨flt, _, walk⟩ := exists_left_of_forall₂ walks inFound
      refine within_narrowed walk root fun path inside => joined path ?_
      exact Stages.Yield.mem_paths_of_walk reported inFound inside
    case search =>
      obtain ⟨same, none | searched⟩ := yields.searched
      · simp [same, none]
      · rw [same]
        refine within_searched searched root (fun path inside => joined path ?_) (by simp)
        exact Text.mem_mergeNew.mpr (.inr inside)
    case select =>
      have selected := yields.select
      have items : c.select = s.select := by rw [yields.compiled]
      rw [items]
      split at selected
      · rw [← Except.ok.inj selected]
        simp
      · obtain ⟨fields, _, each⟩ := selectList_eq_ok selected
        intro item member
        obtain ⟨f, _, expr⟩ := exists_left_of_forall₂ each member
        have named : rootTable s.schema (some (rootTable s.schema table)) = c.table := by
          rw [rootTable_rootTable, yields.compiled]
        rw [source_expr expr, named]
        exact Column.within_of root _
    case discriminators =>
      intro x member
      exact (speaks x member).mono needed
    case joins =>
      rw [joins]
      apply stepsWithin_mergeNew
      rw [List.flatten_append, stepsWithin_append]
      exact ⟨requested, sorted⟩
  · intro t member
    rcases List.mem_append.mp member with bySort | outer
    · rw [Compiled.visible, joins]
      exact List.mem_append_left _ (mem_tables_mergeNew.mpr (.inr bySort))
    · rcases List.mem_append.mp outer with byRequest | isRoot
      · exact needed byRequest
      · cases List.mem_singleton.mp isRoot
        exact root

namespace Books

/-- A query whose filters, search and sorts go through relations, with a sort that leads to no field. -/
def browsing : Query :=
  { lent with sorts := [⟨"Remarks.Stars", .descending⟩, ⟨"Book.Author.Name", .ascending⟩,
      ⟨"Missing.Name", .ascending⟩] }

end Books

theorem compileQuery_scoped_loans :
    ∃ c, (compileQuery Books.lending false Books.browsing (.entity "Loan") none).result = .ok c ∧
      c.visible = ["note", "book", "author", "loan"] ∧ c.Scoped ∧
      List.Forall₂ (fun sort term => term.key.Within c.visible ∨
        false = false ∧ Unmatched Books.lending (.entity "Loan") c.table sort ∧
          term.key = .verbatim sort.name) Books.browsing.sorts c.order := by
  have ok : (compileQuery Books.lending false Books.browsing (.entity "Loan") none).result = .ok _ := rfl
  obtain ⟨inScope, order⟩ := compileQuery_scoped ok
  exact ⟨_, ok, rfl, inScope, order⟩

/-- The name of a lenient sort that leads to no field is written as it stands, whatever its table. -/
theorem compileQuery_unscoped_books :
    ∃ c, (compileQuery Books.context false { sorts := [⟨"Missing.Name", .ascending⟩] } (.entity "Book")
        none).result = .ok c ∧
      ∃ term ∈ c.order, ¬ term.key.Within c.visible := by
  refine ⟨_, rfl, ⟨.verbatim "Missing.Name", .ascending⟩, List.mem_singleton_self _, ?_⟩
  intro within
  have named : "Missing" ∈ ["book"] := within "Missing" rfl
  simp at named

end RowQuery.Compile
