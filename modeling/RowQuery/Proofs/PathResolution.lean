import RowQuery.Proofs.Failures

/-!
# Where paths lead

A filter and a strict sort walk along their paths by different means: one leaves relations to joins or makes
subselects of them, the other joins each relation on its way. What they say about a path is the same. Both
follow `resolve`, which knows of paths and schemas only, as long as the sort's joins can be made; and `resolve`
agrees with `EndsAt`, which says without a limit where a path leads and how many relations it crosses.
-/

namespace RowQuery.Compile

open RowQuery.Schema RowQuery.Sql RowQuery.Join

/-- What a path ends at. -/
inductive Ending where
  | column
  | relation
  deriving DecidableEq, Repr

/-- All segments of a path are there: it leads from an entity through some number of relations to an ending.
    What follows inside a column counts for nothing. -/
inductive EndsAt (ctx : Context) : Schema → (head : String) → (rest : List String) → Nat → Ending → Prop where
  | column {schema : Schema} {head : String} {f : Field} (found : schema.get? head = some f)
      (column : f.isRelation = false) : EndsAt ctx schema head [] 0 .column
  | inside {schema : Schema} {head next : String} {more : List String} {f : Field}
      (found : schema.get? head = some f) (column : f.isRelation = false)
      (inner : goesInside f (next :: more) = true) : EndsAt ctx schema head (next :: more) 0 .column
  | relation {schema : Schema} {head : String} {f : Field} (found : schema.get? head = some f)
      (relation : f.isRelation = true) : EndsAt ctx schema head [] 0 .relation
  | cross {schema related : Schema} {head next : String} {more : List String} {f : Field} {n : Nat}
      {ending : Ending} (found : schema.get? head = some f) (relation : f.isRelation = true)
      (target : (ctx.related f).result = .ok related) (rest : EndsAt ctx related next more n ending) :
      EndsAt ctx schema head (next :: more) (n + 1) ending

/-- What a path ends at, or why it does not end. The name is that of the path in errors. -/
def resolve (ctx : Context) (name : String) :
    (rest : List String) → (head : String) → Schema → (depth : Nat) → Except Error Ending
  | [], head, schema, depth => do
    ctx.checkDepth depth name
    let f ← schema.field head name
    return if f.isRelation then .relation else .column
  | next :: more, head, schema, depth => do
    ctx.checkDepth depth name
    let f ← schema.field head name
    if f.isRelation then do
      let related ← (ctx.related f).result
      resolve ctx name more next related (depth + 1)
    else do
      let _ ← Dialect.resolve ctx.settings ctx.dialect
      if goesInside f (next :: more) then return .column
      else throw (.fieldNotFound schema.entity (Path.dotted (next :: more)) name)

/-! ## Resolution and where paths lead -/

section Resolve

variable {ctx : Context} {limit : Int} {name : String}

section Steps

variable {schema : Schema} {depth : Nat} {head : String} {f : Field}
  (shallow : ctx.checkDepth depth name = .ok ()) (found : schema.get? head = some f)

include shallow found

theorem resolve_nil :
    resolve ctx name [] head schema depth = .ok (if f.isRelation then .relation else .column) := by
  rw [resolve, shallow, field_of_get? found]
  rfl

theorem resolve_cross (relation : f.isRelation = true) (next : String) (more : List String) :
    resolve ctx name (next :: more) head schema depth =
      (ctx.related f).result >>= fun related => resolve ctx name more next related (depth + 1) := by
  rw [resolve, shallow, field_of_get? found]
  exact if_pos relation

theorem resolve_inside (column : f.isRelation = false) (next : String) (more : List String) :
    resolve ctx name (next :: more) head schema depth =
      Dialect.resolve ctx.settings ctx.dialect >>= fun _ => if goesInside f (next :: more) then .ok .column
        else .error (.fieldNotFound schema.entity (Path.dotted (next :: more)) name) := by
  rw [resolve, shallow, field_of_get? found]
  exact if_neg (by simp [column])

end Steps

/-- A path that leads through too many relations is too deep. -/
theorem EndsAt.tooDeep (name : String) (limited : ctx.maxDepth = .int limit) {schema : Schema} {head : String}
    {rest : List String} {n : Nat} {ending : Ending} (there : EndsAt ctx schema head rest n ending) {depth : Nat}
    (long : limit < depth + n) :
    resolve ctx name rest head schema depth = .error (.tooDeep name ctx.maxDepth) := by
  induction there generalizing depth with
  | column | inside | relation =>
    rw [resolve, checkDepth_eq limited, if_pos (by simpa using long)]
    rfl
  | @cross schema related head next more f n ending found relation target rest ih =>
    by_cases here : limit < depth
    · rw [resolve, checkDepth_eq limited, if_pos here]
      rfl
    · rw [resolve_cross (by rw [checkDepth_eq limited, if_neg here]) found relation, target]
      exact ih (by push_cast at long ⊢; omega)

/-- Any other path ends where it leads, unless it goes inside a column and the dialect is not known. -/
theorem EndsAt.resolve_eq (name : String) (limited : ctx.maxDepth = .int limit) {schema : Schema} {head : String}
    {rest : List String} {n : Nat} {ending : Ending} (there : EndsAt ctx schema head rest n ending) {depth : Nat}
    (short : depth + n ≤ limit) :
    resolve ctx name rest head schema depth = .ok ending ∨
      (ending = .column ∧ ∃ e, Dialect.resolve ctx.settings ctx.dialect = .error e ∧
        resolve ctx name rest head schema depth = .error e) := by
  have shallow : ctx.checkDepth depth name = .ok () := by
    rw [checkDepth_eq limited, if_neg (by omega)]
  induction there generalizing depth with
  | column found column => exact .inl (by rw [resolve_nil shallow found, column]; rfl)
  | relation found relation => exact .inl (by rw [resolve_nil shallow found, relation]; rfl)
  | inside found column inner =>
    rw [resolve_inside shallow found column, if_pos inner]
    cases known : Dialect.resolve ctx.settings ctx.dialect with
    | error e => exact .inr ⟨rfl, e, rfl, rfl⟩
    | ok d => exact .inl rfl
  | @cross schema related head next more f n ending found relation target rest ih =>
    rw [resolve_cross shallow found relation, target]
    exact ih (by push_cast at short ⊢; omega) (by rw [checkDepth_eq limited, if_neg (by push_cast at short ⊢; omega)])

/-- A path that ends somewhere leads there. -/
theorem endsAt_of_resolve (limited : ctx.maxDepth = .int limit) {rest : List String} {head : String}
    {schema : Schema} {depth : Nat} {ending : Ending}
    (ends : resolve ctx name rest head schema depth = .ok ending) :
    ∃ n : Nat, EndsAt ctx schema head rest n ending ∧ depth + n ≤ limit := by
  have within : ∀ {depth : Nat}, ctx.checkDepth depth name = .ok () → (depth : Int) ≤ limit := by
    intro depth shallow
    rw [checkDepth_eq limited] at shallow
    split at shallow
    · cases shallow
    · omega
  induction rest generalizing head schema depth with
  | nil =>
    simp only [resolve, bind_eq_ok] at ends
    obtain ⟨_, shallow, f, found, same⟩ := ends
    have found := get?_of_field found
    refine ⟨0, ?_, by simpa using within shallow⟩
    cases relation : f.isRelation with
    | true =>
      rw [if_pos relation] at same
      cases same
      exact .relation found relation
    | false =>
      rw [if_neg (by simp [relation])] at same
      cases same
      exact .column found relation
  | cons next more ih =>
    simp only [resolve, bind_eq_ok] at ends
    obtain ⟨_, shallow, f, found, ends⟩ := ends
    have found := get?_of_field found
    cases relation : f.isRelation with
    | true =>
      rw [if_pos relation] at ends
      obtain ⟨related, target, ends⟩ := bind_eq_ok.mp ends
      obtain ⟨n, there, short⟩ := ih ends
      exact ⟨n + 1, .cross found relation target there, by push_cast at short ⊢; omega⟩
    | false =>
      rw [if_neg (by simp [relation])] at ends
      obtain ⟨_, _, ends⟩ := bind_eq_ok.mp ends
      split at ends
      case isTrue inner =>
        cases ends
        exact ⟨0, .inside found relation inner, by simpa using within shallow⟩
      case isFalse => cases ends

end Resolve

/-! ## Computations that follow a resolution -/

/-- An error that does not tell where a path leads. -/
def Beside (e : Error) : Prop :=
  e.kind? ∉ [some .fieldNotFound, some .invalidSchema, some .filter, some .sort]

theorem beside_values : OfValues Beside := by
  constructor <;> intros <;> simp [Beside, Error.kind?, Error.fault]

theorem beside_of_kind?_eq_none (e : Error) (unreported : e.kind? = none) : Beside e := by
  simp [Beside, unreported]

/-- An error of a resolution: the schema is invalid, a field is missing or there is no report. -/
def Resolving (e : Error) : Prop := e.kind? ∈ [none, some .fieldNotFound, some .invalidSchema]

theorem resolving_paths : OfPaths Resolving where
  misdeclared := fun e wrong => by simp [Resolving, wrong.kind?_eq]
  missing := fun _ _ _ => by simp [Resolving, Error.kind?, Error.fault]
  tooDeep := fun _ _ => by simp [Resolving, Error.kind?, Error.fault]

/-- A computation has the error of a resolution. Where the path ends at a relation it has an error of its own;
    where it ends at a column its errors have a property. -/
def Follows {α : Type} (P : Error → Prop) (atRelation : Error) (x : Except Error α) : Except Error Ending → Prop
  | .error e => x = .error e
  | .ok .relation => x = .error atRelation
  | .ok .column => Fails P x

namespace Follows

variable {α β : Type} {P : Error → Prop} {atRelation : Error} {x : Except Error α} {y : Except Error Ending}

theorem bind {f : α → Except Error β} {g : α → Except Error Ending}
    (next : ∀ a, x = .ok a → Follows P atRelation (f a) (g a)) : Follows P atRelation (x >>= f) (x >>= g) := by
  cases x with
  | error e => exact rfl
  | ok a => exact next a rfl

theorem after {a : α} {f : α → Except Error β} (done : x = .ok a) (next : Follows P atRelation (f a) y) :
    Follows P atRelation (x >>= f) y := by
  rw [done]
  exact next

theorem andThen {f : α → Except Error β} (first : Follows P atRelation x y) (next : ∀ a, Fails P (f a)) :
    Follows P atRelation (x >>= f) y := by
  cases y with
  | error e =>
    have failed : x = .error e := first
    rw [failed]
    exact rfl
  | ok ending =>
    cases ending with
    | relation =>
      have failed : x = .error atRelation := first
      rw [failed]
      exact rfl
    | column => exact Fails.bind first fun a _ => next a

/-- An error that tells where a path leads, and is not that of a relation, is the resolution's. -/
theorem error_iff (follows : Follows P atRelation x y) {e : Error} (about : ¬P e) (other : e ≠ atRelation) :
    x = .error e ↔ y = .error e := by
  cases y with
  | error e' =>
    have failed : x = .error e' := follows
    rw [failed]
    simp
  | ok ending =>
    cases ending with
    | relation =>
      have failed : x = .error atRelation := follows
      simp [failed, other.symm]
    | column =>
      constructor
      · intro failed
        exact absurd (follows e failed) about
      · nofun

/-- The errors of both together are those of the computation. -/
theorem fails (follows : Follows P atRelation x y) (own : P atRelation) (others : Fails P y) : Fails P x := by
  cases y with
  | error e =>
    have failed : x = .error e := follows
    rw [failed]
    exact .error (others e rfl)
  | ok ending =>
    cases ending with
    | relation =>
      have failed : x = .error atRelation := follows
      rw [failed]
      exact .error own
    | column => exact follows

/-- There is an error of the kind that a relation makes exactly if the path ends at a relation. -/
theorem relation_iff (follows : Follows Beside atRelation x y) {kind : ReportKind} (own : atRelation.kind? = some kind)
    (compiler : kind = .filter ∨ kind = .sort) (others : Fails Resolving y) :
    (∃ e, x = .error e ∧ e.kind? = some kind) ↔ y = .ok .relation := by
  cases y with
  | error e' =>
    have failed : x = .error e' := follows
    have unlike : e'.kind? ≠ some kind := by
      intro same
      have resolving : Resolving e' := others e' rfl
      rcases compiler with rfl | rfl <;> simp [Resolving, same] at resolving
    simp [failed, unlike]
  | ok ending =>
    cases ending with
    | relation =>
      have failed : x = .error atRelation := follows
      simp [failed, own]
    | column =>
      constructor
      · rintro ⟨e, failed, isKind⟩
        have beside : Beside e := follows e failed
        rcases compiler with rfl | rfl <;> simp [Beside, isKind] at beside
      · nofun

end Follows

/-! ## Both walks -/

section Walks

variable {ctx : Context} {c : Catalog} {limit : Int}

theorem follows_narrow {P : Error → Prop} (values : OfValues P)
    (known : Fails P (Dialect.resolve ctx.settings ctx.dialect)) (schemas : ctx.Over c)
    (names : NamesColumns ctx.settings) (flt : Filter) (rest : List String) (head : String) (site : Site)
    (described : ∃ subject, ctx.schemaOf subject = .ok site.schema) :
    Follows P (.relationCompared flt.name) (narrow ctx flt rest head site).result
      (resolve ctx flt.name rest head site.schema site.depth) := by
  induction rest generalizing head site with
  | nil =>
    rw [result_narrow_nil, resolve]
    refine .bind fun _ _ => .bind fun f _ => ?_
    cases relation : f.isRelation with
    | true => exact rfl
    | false => exact (fails_leafCondition known values flt f site.qualifier).bind fun _ _ => .ok _
  | cons next more ih =>
    rw [result_narrow_cons, resolve]
    refine .bind fun _ _ => .bind fun f found => ?_
    cases relation : f.isRelation with
    | false =>
      obtain ⟨lhs, same⟩ := innerExpr_eq ctx site.schema.entity flt.name f site.qualifier (next :: more)
      simp only [Bool.false_eq_true, if_false, same, bind_assoc]
      refine .bind fun _ _ => ?_
      split
      · exact (fails_test values flt _).bind fun _ _ => .ok _
      · exact rfl
    | true =>
      obtain ⟨subject, described⟩ := described
      obtain ⟨target, leads⟩ := schemas.exists_related described (mem_of_field found).1 relation
      refine .bind fun related behind => ?_
      have behind : ∃ subject, ctx.schemaOf subject = .ok related := ⟨_, leads.symm.trans behind⟩
      split
      · exact (ih next _ behind).andThen fun _ => .ok _
      · refine (ih next (site.behindSelect related f) behind).andThen fun _ => ?_
        have wellFormed := schemas.wellFormed described f (mem_of_field found).1
        exact (fails_relationFrames names known wellFormed relation _ _).bind fun _ _ => .ok _

/-- What the joins of a sort need: names for tables and keys, and a join type. -/
structure Joinable (c : Catalog) (ctx : Context) : Prop where
  schemas : ctx.Over c
  tables : ∀ e ∈ c, e.table ≠ ""
  registry : ∀ r ∈ ctx.registry, r.Built
  names : NamesColumns ctx.settings
  key : ctx.settings.primaryKey ≠ .text ""
  joinType : ∃ joinType, ctx.settings.joinType = .ok joinType

/-- A relation of a described entity has a valid configuration in a sort. -/
theorem Joinable.exists_sortConfig (joinable : Joinable c ctx) {subject : Subject} {schema : Schema} {f : Field}
    (described : ctx.schemaOf subject = .ok schema) (field : f ∈ schema.fields) (relation : f.isRelation = true)
    {base : String} (based : base ≠ "") (named : f.name ≠ "") (path : String) :
    ∃ config, sortConfig ctx base path f = .ok config ∧ config.validate "" = .ok () := by
  obtain ⟨joinType, setting⟩ := joinable.joinType
  have wellFormed := joinable.schemas.wellFormed described f field
  obtain ⟨config, configured, valid⟩ := RowQuery.Compile.exists_sortConfig joinable.registry joinable.names
    setting wellFormed relation base path
  refine ⟨config, configured, valid named based joinable.key ?_⟩
  obtain ⟨target, leads⟩ := Option.isSome_iff_exists.mp (wellFormed.target.mp relation)
  obtain ⟨e, declared, table⟩ := wellFormed.leads target leads
  rw [table]
  simpa using joinable.tables e (List.mem_of_find?_eq_some declared)

theorem follows_sortKey (joinable : Joinable c ctx)
    (known : ∃ d, Dialect.resolve ctx.settings ctx.sortRegistry.dialect = .ok d) (mode : SortMode)
    (name : String) (rest : List String) (head : String) (site : SortSite)
    (described : ∃ subject, ctx.schemaOf subject = .ok site.schema) (based : site.table ≠ "")
    (named : ∀ segment ∈ head :: rest, segment ≠ "") :
    Follows Beside (.relationSorted name) (sortKey ctx mode name rest head site).result
      (resolve ctx name rest head site.schema site.depth) := by
  have dialect := (fails_dialect ctx.settings ctx.dialect).mono beside_of_kind?_eq_none
  have language := (fails_quotable ctx.settings.defaultLanguage).mono beside_of_kind?_eq_none
  induction rest generalizing head site with
  | nil =>
    rw [result_sortKey_nil, resolve]
    refine .bind fun _ _ => .bind fun f _ => ?_
    cases relation : f.isRelation with
    | true => exact rfl
    | false => exact (fails_sortExpr dialect language f _).bind fun _ _ => .ok _
  | cons next more ih =>
    rw [result_sortKey_cons, resolve]
    refine .bind fun _ _ => .bind fun f found => ?_
    cases relation : f.isRelation with
    | false =>
      obtain ⟨lhs, same⟩ := innerExpr_eq ctx site.schema.entity name f (some site.table) (next :: more)
      simp only [Bool.false_eq_true, if_false, same, bind_assoc]
      refine .bind fun _ _ => ?_
      split
      · exact .ok _
      · exact rfl
    | true =>
      obtain ⟨subject, described⟩ := described
      obtain ⟨inside, isName⟩ := mem_of_field found
      obtain ⟨target, leads⟩ := joinable.schemas.exists_related described inside relation
      refine .bind fun related behind => ?_
      have behind : ∃ subject, ctx.schemaOf subject = .ok related := ⟨_, leads.symm.trans behind⟩
      -- The join is made before the walk goes on, but it is made without failure.
      obtain ⟨config, configured, valid⟩ := joinable.exists_sortConfig described inside relation based
        (by rw [isName]; exact named head (by simp)) (site.walked ++ head)
      obtain ⟨d, known⟩ := known
      obtain ⟨own, clause⟩ := exists_sortClause joinable.names known valid mode site.table (site.walked ++ head)
      refine .after configured (.after clause ?_)
      exact (ih next (site.behind related (site.walked ++ head) config) behind (Config.validate_eq_ok.mp valid).1
        fun segment member => named segment (List.mem_cons_of_mem _ member)).andThen fun _ => .ok _

/-! ## Whole compilations -/

/-- What a path ends at that starts at a subject. -/
def resolveOn (ctx : Context) (name : String) (subject : Subject) : Except Error Ending := do
  let schema ← ctx.schemaOf subject
  resolve ctx name (Path.ofText name).rest (Path.ofText name).head schema 0

/-- A resolution fails by missing fields and invalid schemas, or because the dialect is not known. -/
theorem fails_resolve {P : Error → Prop} (paths : OfPaths P)
    (known : Fails P (Dialect.resolve ctx.settings ctx.dialect)) (schemas : ctx.Over c)
    (limited : ctx.maxDepth = .int limit) (name : String) (rest : List String) (head : String) (schema : Schema)
    (depth : Nat) (described : ∃ subject, ctx.schemaOf subject = .ok schema) :
    Fails P (resolve ctx name rest head schema depth) := by
  have deep := fun depth => fails_checkDepth paths limited depth name
  have found := fun schema head => fails_field paths schema head name
  induction rest generalizing head schema depth with
  | nil =>
    rw [resolve]
    exact (deep depth).bind fun _ _ => (found schema head).bind fun f _ => .ok _
  | cons next more ih =>
    rw [resolve]
    refine (deep depth).bind fun _ _ => (found schema head).bind fun f isField => ?_
    split
    case isTrue relation =>
      obtain ⟨subject, described⟩ := described
      obtain ⟨target, leads⟩ := schemas.exists_related described (mem_of_field isField).1 relation
      rw [leads]
      refine Fails.bind ?_ fun related behind => ih next related (depth + 1) ⟨_, behind⟩
      exact (schemas.fails_schemaOf (.entity target)).mono paths.misdeclared
    case isFalse =>
      refine Fails.bind known fun _ _ => ?_
      split
      · exact .ok _
      · exact .error (paths.missing _ _ _)

theorem follows_compileFilters (schemas : ctx.Over c) (names : NamesColumns ctx.settings) (flt : Filter)
    (subject : Subject) (table : Option String) :
    Follows Beside (.relationCompared flt.name) (compileFilters ctx [flt] subject table).result
      (resolveOn ctx flt.name subject) := by
  rw [result_compileFilters]
  refine .bind fun schema described => ?_
  simp only [List.mapM_cons, bind_assoc]
  have known := (fails_dialect ctx.settings ctx.dialect).mono beside_of_kind?_eq_none
  exact (follows_narrow beside_values known schemas names flt _ _ (.root schema (rootTable schema table))
    ⟨subject, described⟩).andThen fun _ => .ok _

/-- A strict sort fails as its walk does. -/
theorem result_sortTerm_strict {mode : SortMode} (strict : mode.strict = true) (schema : Schema) (table : String)
    (sort : Sorting) :
    (sortTerm ctx mode schema table sort).result =
      (sortKey ctx mode sort.name sort.path.rest sort.path.head ⟨schema, table, "", 0⟩).result >>= fun x =>
        .ok (⟨.expr x.1, sort.direction⟩, x.2) := by
  rw [result_sortTerm]
  cases (sortKey ctx mode sort.name sort.path.rest sort.path.head ⟨schema, table, "", 0⟩).result with
  | ok x => rfl
  | error e =>
    cases e with
    | fieldNotFound entity field path => exact if_pos strict
    | _ => rfl

theorem segment_ne_empty {name : String} (path : Filter.isPathText name = true) :
    ∀ segment ∈ (Path.ofText name).head :: (Path.ofText name).rest, segment ≠ "" := by
  intro segment member empty
  have wellFormed := List.all_eq_true.mp path segment member
  rw [empty] at wellFormed
  cases wellFormed

theorem Joinable.rootTable_ne_empty (joinable : Joinable c ctx) {subject : Subject} {schema : Schema}
    (described : ctx.schemaOf subject = .ok schema) (table : Option String) : rootTable schema table ≠ "" := by
  obtain ⟨name, declared⟩ := joinable.schemas.exists_describe described
  obtain ⟨e, found, same, _⟩ := Catalog.describe_eq_ok declared
  have own : schema.table ≠ "" := same ▸ joinable.tables e (List.mem_of_find?_eq_some found)
  unfold rootTable
  cases given : nonEmpty? table with
  | none => exact own
  | some t => simpa using (Option.filter_eq_some_iff.mp given).2

theorem follows_compileSorts (joinable : Joinable c ctx)
    (known : ∃ d, Dialect.resolve ctx.settings ctx.sortRegistry.dialect = .ok d) (mode : SortMode)
    (strict : mode.strict = true) (sort : Sorting) (path : Filter.isPathText sort.name = true)
    (subject : Subject) (table : Option String) :
    Follows Beside (.relationSorted sort.name) (compileSorts ctx mode [sort] subject table).result
      (resolveOn ctx sort.name subject) := by
  rw [result_compileSorts]
  refine .bind fun schema described => ?_
  simp only [List.mapM_cons, result_sortTerm_strict strict, bind_assoc]
  exact (follows_sortKey joinable known mode sort.name _ _ ⟨schema, rootTable schema table, "", 0⟩
    ⟨subject, described⟩ (joinable.rootTable_ne_empty described table) (segment_ne_empty path)).andThen fun _ => .ok _

theorem fails_resolveOn (schemas : ctx.Over c) (limited : ctx.maxDepth = .int limit) (name : String)
    (subject : Subject) : Fails Resolving (resolveOn ctx name subject) := by
  have known := (fails_dialect ctx.settings ctx.dialect).mono (Q := Resolving) fun e unreported => by
    simp [Resolving, unreported]
  exact ((schemas.fails_schemaOf subject).mono resolving_paths.misdeclared).bind fun schema described =>
    fails_resolve resolving_paths known schemas limited name _ _ schema 0 ⟨subject, described⟩

end Walks

/-- What a filter and a strict sort say about their common path is the same. -/
structure ResolveAlike (ctx : Context) (limit : Int) (flt : Filter) (subject : Subject)
    (filtered : Except Error FilterPart) (sorted : Except Error SortPart) : Prop where
  /-- A missing field and an invalid schema are reported by both, with the same message and details. -/
  reported : ∀ e : Error, e.kind? = some .fieldNotFound ∨ e.kind? = some .invalidSchema →
    (filtered = .error e ↔ sorted = .error e)
  /-- The filter is refused as a filter exactly if the sort is refused as a sort. -/
  refused : (∃ e, filtered = .error e ∧ e.kind? = some .filter) ↔
    ∃ e, sorted = .error e ∧ e.kind? = some .sort
  /-- This is so where the path ends at a relation. -/
  relation : ∀ schema, ctx.schemaOf subject = .ok schema →
    ((∃ e, filtered = .error e ∧ e.kind? = some .filter) ↔
      ∃ n : Nat, EndsAt ctx schema flt.path.head flt.path.rest n .relation ∧ n ≤ limit)
  /-- A path all of whose segments are there is too deep exactly if it crosses too many relations. -/
  tooDeep : ∀ schema n ending, ctx.schemaOf subject = .ok schema →
    EndsAt ctx schema flt.path.head flt.path.rest n ending →
    (filtered = .error (.tooDeep flt.name ctx.maxDepth) ↔ limit < n) ∧
      (sorted = .error (.tooDeep flt.name ctx.maxDepth) ↔ limit < n)

section Resolved

variable {ctx : Context} {c : Catalog} {limit : Int} {name : String} {subject : Subject} {schema : Schema}

theorem resolveOn_eq (described : ctx.schemaOf subject = .ok schema) :
    resolveOn ctx name subject = resolve ctx name (Path.ofText name).rest (Path.ofText name).head schema 0 := by
  rw [resolveOn, described]
  rfl

theorem resolveOn_eq_relation (limited : ctx.maxDepth = .int limit) (described : ctx.schemaOf subject = .ok schema) :
    resolveOn ctx name subject = .ok .relation ↔
      ∃ n : Nat, EndsAt ctx schema (Path.ofText name).head (Path.ofText name).rest n .relation ∧ n ≤ limit := by
  rw [resolveOn_eq described]
  constructor
  · intro ends
    obtain ⟨n, there, short⟩ := endsAt_of_resolve limited ends
    exact ⟨n, there, by simpa using short⟩
  · rintro ⟨n, there, short⟩
    have within : ((0 : Nat) : Int) + n ≤ limit := by simpa using short
    rcases there.resolve_eq name limited within with ends | ⟨column, _⟩
    · exact ends
    · cases column

theorem resolveOn_eq_tooDeep (limited : ctx.maxDepth = .int limit) (described : ctx.schemaOf subject = .ok schema)
    {n : Nat} {ending : Ending}
    (there : EndsAt ctx schema (Path.ofText name).head (Path.ofText name).rest n ending) :
    resolveOn ctx name subject = .error (.tooDeep name ctx.maxDepth) ↔ limit < n := by
  rw [resolveOn_eq described]
  constructor
  · intro deep
    by_contra short
    have within : ((0 : Nat) : Int) + n ≤ limit := by omega
    rcases there.resolve_eq name limited within with ends | ⟨_, e, known, failed⟩
    · rw [ends] at deep
      cases deep
    · cases failed.symm.trans deep
      cases fails_dialect _ _ _ known
  · intro long
    exact there.tooDeep name limited (by simpa using long)

end Resolved

/-- A filter and a strict sort resolve paths alike, if the dialect in which the joins of the sort are written
    is a known one. -/
theorem resolveAlike_of_joinable {ctx : Context} {c : Catalog} {limit : Int} {flt : Filter} {subject : Subject}
    {table : Option String} {joined : List String} {direction : Direction} (joinable : Joinable c ctx)
    (limited : ctx.maxDepth = .int limit) (path : Filter.isPathText flt.name = true)
    (known : ∃ d, Dialect.resolve ctx.settings ctx.sortRegistry.dialect = .ok d) :
    ResolveAlike ctx limit flt subject (compileFilters ctx [flt] subject table).result
      (compileSorts ctx { strict := true, joined } [⟨flt.name, direction⟩] subject table).result := by
  have filtered := follows_compileFilters joinable.schemas joinable.names flt subject table
  have sorted := follows_compileSorts joinable known { strict := true, joined } rfl ⟨flt.name, direction⟩ path
    subject table
  have resolving := fails_resolveOn joinable.schemas limited flt.name subject
  have refused := filtered.relation_iff rfl (.inl rfl) resolving
  refine ⟨?_, ?_, ?_, ?_⟩
  · intro e about
    have notBeside : ¬Beside e := by rcases about with kind | kind <;> simp [Beside, kind]
    have notCompared : e ≠ .relationCompared flt.name := by
      rintro rfl
      rcases about with kind | kind <;> cases kind
    have notSorted : e ≠ .relationSorted flt.name := by
      rintro rfl
      rcases about with kind | kind <;> cases kind
    exact (filtered.error_iff notBeside notCompared).trans (sorted.error_iff notBeside notSorted).symm
  · exact refused.trans (sorted.relation_iff rfl (.inr rfl) resolving).symm
  · intro schema described
    exact refused.trans (resolveOn_eq_relation limited described)
  · intro schema n ending described there
    have deep := resolveOn_eq_tooDeep limited described there
    have about : ¬Beside (.tooDeep flt.name ctx.maxDepth) := by simp [Beside, Error.kind?, Error.fault]
    exact ⟨(filtered.error_iff about (by simp)).trans deep, (sorted.error_iff about (by simp)).trans deep⟩

namespace Books

/-- How the authors of volumes are joined. -/
def authorJoin : Config :=
  { type := .oneToOne, table := "person", joinType := .left
    keys := { localKey := some "AuthorID", foreignKey := some "ID" } }

/-- Volumes and their authors, with a registered join that is written in some dialect. -/
def joinedIn (dialect : String) : Context :=
  { settings := {}, schemaOf := ({} : Cache).describe (.ofDecls Samples.library)
    registry := some { dialect := some dialect, entries := [("Author", authorJoin)] }, maxDepth := .int 1 }

theorem joinable_joinedIn (dialect : String) : Joinable (.ofDecls Samples.library) (joinedIn dialect) where
  schemas := fun _ => rfl
  tables := by decide
  registry := by
    intro r registered
    cases registered
    have added : Registry.register { dialect := some dialect } "Author" authorJoin =
        .ok { dialect := some dialect, entries := [("Author", authorJoin)] } := rfl
    exact .register (.empty _) added
  names := ⟨⟨_, rfl⟩, ⟨_, rfl⟩, ⟨_, rfl⟩⟩
  key := by simp [joinedIn]
  joinType := ⟨_, rfl⟩

end Books

/-- Where the dialect is not known, a missing field behind a relation is reported for the filter only: the sort
    has to write its join first. -/
theorem not_resolveAlike_oracle :
    Joinable (.ofDecls Samples.library) (Books.joinedIn "oracle") ∧ (Books.joinedIn "oracle").maxDepth = .int 1 ∧
      Filter.isPathText "Author.Missing" = true ∧
      ¬ResolveAlike (Books.joinedIn "oracle") 1 ⟨"Author.Missing", .equal, "1"⟩ (.entity "Volume")
        (compileFilters (Books.joinedIn "oracle") [⟨"Author.Missing", .equal, "1"⟩] (.entity "Volume") none).result
        (compileSorts (Books.joinedIn "oracle") { strict := true } [⟨"Author.Missing", .ascending⟩]
          (.entity "Volume") none).result := by
  refine ⟨Books.joinable_joinedIn "oracle", rfl, by decide, ?_⟩
  intro alike
  have filtered : (compileFilters (Books.joinedIn "oracle") [⟨"Author.Missing", .equal, "1"⟩] (.entity "Volume")
      none).result = .error (.fieldNotFound "Person" "Missing" "Author.Missing") := rfl
  have sorted : (compileSorts (Books.joinedIn "oracle") { strict := true } [⟨"Author.Missing", .ascending⟩]
      (.entity "Volume") none).result = .error (.unknownDialect (.text "oracle")) := rfl
  cases sorted.symm.trans ((alike.reported _ (.inl rfl)).mp filtered)

/-- In a known dialect a missing field behind a relation is reported for both. -/
theorem resolveAlike_of_joinable_ansi :
    Joinable (.ofDecls Samples.library) (Books.joinedIn "ansi") ∧ Filter.isPathText "Author.Missing" = true ∧
      (compileFilters (Books.joinedIn "ansi") [⟨"Author.Missing", .equal, "1"⟩] (.entity "Volume") none).result =
        .error (.fieldNotFound "Person" "Missing" "Author.Missing") ∧
      (compileSorts (Books.joinedIn "ansi") { strict := true } [⟨"Author.Missing", .ascending⟩]
        (.entity "Volume") none).result = .error (.fieldNotFound "Person" "Missing" "Author.Missing") := by
  have filtered : (compileFilters (Books.joinedIn "ansi") [⟨"Author.Missing", .equal, "1"⟩] (.entity "Volume")
      none).result = .error (.fieldNotFound "Person" "Missing" "Author.Missing") := rfl
  have path : Filter.isPathText "Author.Missing" = true := by decide
  refine ⟨Books.joinable_joinedIn "ansi", path, filtered, ?_⟩
  have alike : ResolveAlike (Books.joinedIn "ansi") 1 ⟨"Author.Missing", .equal, "1"⟩ (.entity "Volume")
      (compileFilters (Books.joinedIn "ansi") [⟨"Author.Missing", .equal, "1"⟩] (.entity "Volume") none).result
      (compileSorts (Books.joinedIn "ansi") { strict := true } [⟨"Author.Missing", .ascending⟩]
        (.entity "Volume") none).result :=
    resolveAlike_of_joinable (Books.joinable_joinedIn "ansi") rfl path ⟨.ansi, rfl⟩
  exact (alike.reported _ (.inl rfl)).mp filtered

end RowQuery.Compile
