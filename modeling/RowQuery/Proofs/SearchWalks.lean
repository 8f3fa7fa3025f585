import RowQuery.Proofs.Failures

/-!
# Where a search comes to

A search walks along the relations that have a search pattern. It fails exactly if one of these walks comes
to an entity twice, crosses more relations than may be, or comes to an entity that has no schema; and every
failure is a report of an invalid schema. The walk ends on every graph of entities: each step makes the
chain of entities longer, which may not exceed the limit.
-/

namespace RowQuery

/-- An error that callers are told of as an invalid schema. -/
def Error.IsInvalidSchema (e : Error) : Prop :=
  ∃ r, e.fault = .report r ∧ r.kind = .invalidSchema

end RowQuery

namespace RowQuery.Compile

/-- A computation that fails with invalid schemas only. -/
def Reports {α : Type} (x : Except Error α) : Prop := ∀ e, x = .error e → e.IsInvalidSchema

namespace Reports

variable {α : Type}

theorem ok (a : α) : Reports (.ok a) := Fails.ok a

theorem error {e : Error} (invalid : e.IsInvalidSchema) : Reports (α := α) (.error e) := Fails.error invalid

end Reports

end RowQuery.Compile

namespace RowQuery.Schema.Catalog

open RowQuery.Compile

variable (c : Catalog)

/-- What is wrong with an entity is an invalid schema. -/
theorem reports_describe (name : String) : Reports (c.describe name) :=
  (c.fails_describe name).mono fun _ wrong => by cases wrong <;> exact ⟨_, rfl, rfl⟩

variable {c}

/-- The schema of an entity bears its name. -/
theorem entity_describe {name : String} {schema : Schema} (ok : c.describe name = .ok schema) :
    schema.entity = name := by
  obtain ⟨_, _, _, bears, _⟩ := described_of_describe ok
  exact bears

end RowQuery.Schema.Catalog

namespace RowQuery.Compile

open RowQuery.Schema RowQuery.Sql RowQuery.Join

/-! ## Walks -/

/-- A walk from an entity along the relations that a search goes through, by the entities that it comes to.
    The last of them need not have a schema. -/
inductive Walk (schemaOf : Subject → Except Error Schema) : String → List String → Prop where
  | stay (entity : String) : Walk schemaOf entity []
  | cross {entity next : String} {rest : List String} {schema : Schema} {f : Field}
      (described : schemaOf (.entity entity) = .ok schema) (field : f ∈ schema.searchableFields)
      (relation : f.isRelation = true) (target : f.target = some next) (more : Walk schemaOf next rest) :
      Walk schemaOf entity (next :: rest)

/-- Every walk from an entity goes to entities that are new, also to those of the chain that leads there,
    crosses no more relations than the budget allows, and comes to entities with a schema only. -/
def WalksWell (schemaOf : Subject → Except Error Schema) (budget : Nat) (chain : List String)
    (entity : String) : Prop :=
  ∀ rest, Walk schemaOf entity rest → (chain ++ rest).Nodup ∧ rest.length ≤ budget ∧
    ∀ name ∈ rest, ∃ schema, schemaOf (.entity name) = .ok schema

/-- The same of the walks that start with a field. -/
def FieldWalksWell (schemaOf : Subject → Except Error Schema) (budget : Nat) (chain : List String)
    (f : Field) : Prop :=
  f.isRelation = true → ∀ next, f.target = some next →
    (∃ schema, schemaOf (.entity next) = .ok schema) ∧ next ∉ chain ∧
      ∃ less, budget = less + 1 ∧ WalksWell schemaOf less (chain ++ [next]) next

theorem walksWell_iff {schemaOf : Subject → Except Error Schema} {budget : Nat} {chain : List String}
    {schema : Schema} (nodup : chain.Nodup) (described : schemaOf (.entity schema.entity) = .ok schema) :
    WalksWell schemaOf budget chain schema.entity ↔
      ∀ f ∈ schema.searchableFields, FieldWalksWell schemaOf budget chain f := by
  constructor
  · intro well f field relation next target
    have step : ∀ rest, Walk schemaOf next rest → (chain ++ next :: rest).Nodup ∧ rest.length + 1 ≤ budget ∧
        ∀ name ∈ next :: rest, ∃ schema, schemaOf (.entity name) = .ok schema :=
      fun rest more => well (next :: rest) (.cross described field relation target more)
    obtain ⟨fresh, short, known⟩ := step [] (.stay next)
    refine ⟨known next (by simp), ?_, budget - 1, by simp at short; omega, ?_⟩
    · intro inside
      exact List.disjoint_of_nodup_append fresh inside (by simp)
    · intro rest more
      obtain ⟨fresh, short, known⟩ := step rest more
      refine ⟨by simpa using fresh, by omega, fun name member => known name (by simp [member])⟩
  · intro each rest walk
    cases walk with
    | stay => exact ⟨by simpa using nodup, by simp, by simp⟩
    | cross again field relation target more =>
      cases described.symm.trans again
      obtain ⟨known, _, less, rfl, well⟩ := each _ field relation _ target
      obtain ⟨fresh, short, others⟩ := well _ more
      refine ⟨by simpa using fresh, by simp; omega, ?_⟩
      intro name member
      rcases List.mem_cons.mp member with rfl | later
      · exact known
      · exact others name later

/-! ## Searches -/

/-- A computation that succeeds exactly if a condition holds, and else reports an invalid schema. -/
def Decides {α : Type} (x : Except Error α) (P : Prop) : Prop :=
  Reports x ∧ ((∃ a, x = .ok a) ↔ P)

namespace Decides

variable {α β : Type} {x : Except Error α} {P Q : Prop}

theorem ok (a : α) (holds : P) : Decides (.ok a) P := ⟨.ok a, fun _ => holds, fun _ => ⟨a, rfl⟩⟩

theorem error {e : Error} (invalid : e.IsInvalidSchema) (fails : ¬P) : Decides (α := α) (.error e) P :=
  ⟨.error invalid, fun ⟨_, same⟩ => by (cases same), fun holds => absurd holds fails⟩

theorem congr (decides : Decides x P) (same : P ↔ Q) : Decides x Q := ⟨decides.1, decides.2.trans same⟩

theorem bind {f : α → Except Error β} (first : Decides x P) (next : ∀ a, x = .ok a → Decides (f a) Q) :
    Decides (x >>= f) (P ∧ Q) := by
  cases outcome : x with
  | error e =>
    refine error (first.1 e outcome) ?_
    intro both
    obtain ⟨a, same⟩ := first.2.mpr both.1
    rw [outcome] at same
    cases same
  | ok a =>
    have holds : P := first.2.mp ⟨a, outcome⟩
    exact (next a outcome).congr ⟨fun q => ⟨holds, q⟩, fun both => both.2⟩

theorem foldlM {γ : Type} {f : β → γ → Except Error β} {P : γ → Prop} {ys : List γ}
    (step : ∀ b, ∀ y ∈ ys, Decides (f b y) (P y)) (b : β) : Decides (ys.foldlM f b) (∀ y ∈ ys, P y) := by
  induction ys generalizing b with
  | nil => exact ok b (by simp)
  | cons y ys ih =>
    rw [List.foldlM_cons]
    have rest : ∀ b, Decides (ys.foldlM f b) (∀ z ∈ ys, P z) :=
      ih fun b z member => step b z (by simp [member])
    refine ((step b y (by simp)).bind fun b' _ => rest b').congr ?_
    simp

end Decides

theorem Traced.result_foldlM {α β : Type} (f : β → α → Traced β) (b : β) (xs : List α) :
    (xs.foldlM f b).result = xs.foldlM (fun b a => (f b a).result) b := by
  induction xs generalizing b with
  | nil => rfl
  | cons x xs ih =>
    rw [List.foldlM_cons, List.foldlM_cons, Traced.result_bind]
    exact congrArg _ (funext ih)

section Search

variable {ctx : Context} {c : Catalog} {d : Dialect} {n : Nat} {term : String}

theorem Context.Over.entity_eq (schemas : ctx.Over c) {name : String} {schema : Schema}
    (ok : ctx.schemaOf (.entity name) = .ok schema) : schema.entity = name := by
  rw [schemas] at ok
  exact Catalog.entity_describe ok

theorem Context.Over.describe_entity (schemas : ctx.Over c) {subject : Subject} {schema : Schema}
    (ok : ctx.schemaOf subject = .ok schema) : ctx.schemaOf (.entity schema.entity) = .ok schema := by
  obtain ⟨name, described⟩ := schemas.exists_describe ok
  rw [schemas, Catalog.entity_describe described]
  exact described

/-- Every column can be searched once the dialect is known. -/
theorem exists_searchColumn (known : Dialect.resolve ctx.settings ctx.dialect = .ok d) (term : String)
    (site : SearchSite) (f : Field) : ∃ part, searchColumn ctx term site f = .ok part := by
  have column : ctx.localizer.column f (some site.table) = .ok (.of site.table f.column) := by
    simp only [Localizer.column, Context.localizer, known]
    rfl
  have own : ctx.localizer.languageOr .null = .ofText? ctx.language := rfl
  obtain ⟨lhs, expr⟩ : ∃ lhs, ctx.localizer.expr f (some site.table) .null = .ok lhs := by
    simp only [Localizer.expr, column, own, bind, Except.bind]
    split
    case isTrue read =>
      cases language : ctx.language with
      | none => simp [language, Detail.ofText?, Detail.isTrue] at read
      | some code => exact ⟨_, rfl⟩
    case isFalse => exact ⟨_, rfl⟩
  exact ⟨_, by rw [searchColumn, expr]; rfl⟩

/-- A relation is searched if the entity behind it is; writing it as a subselect does not fail. -/
theorem decides_searchRelation {site : SearchSite} {f : Field} {related : Schema}
    {inner : SearchSite → Traced SearchPart} {P : Prop}
    (framed : ∃ frames, relationFrames ctx.settings ctx.dialect f site.table related.table = .ok frames)
    (behind : ∀ next : SearchSite, next.schema = related → next.chain = site.chain ++ [related.entity] →
      Decides (inner next).result P) :
    Decides (searchRelation ctx site f related inner).result P := by
  unfold searchRelation
  cases ctx.registered? site.walked f.name with
  | some entry =>
    simp only [Traced.result_bind]
    refine ((behind _ rfl rfl).bind fun part _ => .ok _ trivial).congr (and_iff_left trivial)
  | none =>
    simp only [Traced.result_bind]
    refine ((behind _ rfl rfl).bind (Q := True) fun part _ => ?_).congr (and_iff_left trivial)
    cases part.alternatives with
    | nil => exact .ok _ trivial
    | cons p ps =>
      obtain ⟨frames, framed⟩ := framed
      simp only [Traced.result_bind, Traced.result_liftM, framed]
      exact .ok _ trivial

theorem decides_searchField {budget : Nat} {site : SearchSite} {f : Field} (schemas : ctx.Over c)
    (names : NamesColumns ctx.settings) (known : Dialect.resolve ctx.settings ctx.dialect = .ok d)
    (limit : ctx.maxDepth = .int n) (nodup : site.chain.Nodup)
    (described : ctx.schemaOf (.entity site.schema.entity) = .ok site.schema)
    (field : f ∈ site.schema.fields)
    (inner : ∀ less < budget, ∀ next : SearchSite, next.chain.Nodup →
      ctx.schemaOf (.entity next.schema.entity) = .ok next.schema →
      Decides (search ctx term less next).result (WalksWell ctx.schemaOf less next.chain next.schema.entity)) :
    Decides (searchField ctx term budget site f).result (FieldWalksWell ctx.schemaOf budget site.chain f) := by
  unfold searchField
  by_cases relation : f.isRelation = true
  · rw [schemas] at described
    have wellFormed := Catalog.wellFormed_of_describe described f field
    obtain ⟨next, target⟩ := Option.isSome_iff_exists.mp (wellFormed.target.mp relation)
    have only : FieldWalksWell ctx.schemaOf budget site.chain f ↔
        (∃ schema, ctx.schemaOf (.entity next) = .ok schema) ∧ next ∉ site.chain ∧
          ∃ less, budget = less + 1 ∧ WalksWell ctx.schemaOf less (site.chain ++ [next]) next := by
      constructor
      · intro well
        exact well relation next target
      · intro holds _ other same
        cases target.symm.trans same
        exact holds
    simp only [relation, Bool.not_true, Bool.false_eq_true, if_false, Traced.result_bind,
      result_related target]
    cases behind : ctx.schemaOf (.entity next) with
    | error e =>
      refine .error ?_ ?_
      · rw [schemas] at behind
        exact c.reports_describe next e behind
      · intro well
        obtain ⟨⟨schema, ok⟩, _⟩ := only.mp well
        rw [behind] at ok
        cases ok
    | ok related =>
      have named := schemas.entity_eq behind
      show Decides (if related.entity ∈ site.chain then _ else _ : Traced SearchPart).result _
      -- A cycle is found before the budget is looked at, but either is a walk that is not fine.
      by_cases cyclic : related.entity ∈ site.chain
      · rw [if_pos cyclic]
        refine .error ⟨_, rfl, rfl⟩ ?_
        intro well
        exact (only.mp well).2.1 (named ▸ cyclic)
      · rw [if_neg cyclic]
        cases budget with
        | zero =>
          rw [limit]
          refine .error ⟨_, rfl, rfl⟩ ?_
          intro well
          obtain ⟨_, _, less, same, _⟩ := only.mp well
          omega
        | succ less =>
          have fresh : (site.chain ++ [related.entity]).Nodup := by
            rw [List.nodup_append]
            exact ⟨nodup, by simp, fun a inChain b isLast same => cyclic (by simp_all)⟩
          have searched : Decides (searchRelation ctx site f related (search ctx term less)).result
              (WalksWell ctx.schemaOf less (site.chain ++ [related.entity]) related.entity) := by
            refine decides_searchRelation (exists_frames names known wellFormed relation _ _) ?_
            intro inside schema chain
            rw [← chain, ← schema]
            exact inner less (by omega) inside (by rw [chain]; exact fresh) (by rw [schema, named]; exact behind)
          refine searched.congr ?_
          rw [only, named]
          constructor
          · intro well
            exact ⟨⟨related, behind⟩, named ▸ cyclic, less, rfl, well⟩
          · rintro ⟨_, _, _, same, well⟩
            cases same
            exact well
  · obtain ⟨part, searched⟩ := exists_searchColumn known term site f
    simp only [relation, Bool.not_false, if_true, Traced.result_liftM, searched]
    exact .ok part fun isRelation => absurd isRelation relation

theorem decides_search (schemas : ctx.Over c) (names : NamesColumns ctx.settings)
    (known : Dialect.resolve ctx.settings ctx.dialect = .ok d) (limit : ctx.maxDepth = .int n)
    (term : String) (budget : Nat) (site : SearchSite) (nodup : site.chain.Nodup)
    (described : ctx.schemaOf (.entity site.schema.entity) = .ok site.schema) :
    Decides (search ctx term budget site).result
      (WalksWell ctx.schemaOf budget site.chain site.schema.entity) := by
  -- The budget falls by one for each relation; the condition is about the chain that it is crossed with.
  induction budget using Nat.strongRecOn generalizing site with
  | ind budget ih =>
    rw [search_eq, Traced.result_foldlM]
    refine Decides.congr (Decides.foldlM ?_ _) (walksWell_iff nodup described).symm
    intro found f field
    have here := decides_searchField schemas names known limit nodup described
      (List.mem_of_mem_filter field) ih
    rw [Traced.result_bind]
    exact (here.bind fun part _ => .ok _ trivial).congr (and_iff_left trivial)

end Search

/-! ## The recursion -/

/-- What a field adds to a search, given how it goes on behind relations. There is no budget: the chain of
    entities is held against the limit. -/
def stepField (ctx : Context) (term : String) (run : SearchSite → Traced SearchPart) (site : SearchSite)
    (f : Field) : Traced SearchPart :=
  if !f.isRelation then (searchColumn ctx term site f : Traced SearchPart)
  else do
    let related ← ctx.related f
    if related.entity ∈ site.chain then
      throw (.cyclicSearch f.name (site.chain ++ [related.entity]))
    ctx.checkDepth site.chain.length f.name
    searchRelation ctx site f related run

/-- What a search does at a site, given how it goes on behind relations. -/
def searchStep (ctx : Context) (term : String) (run : SearchSite → Traced SearchPart) (site : SearchSite) :
    Traced SearchPart :=
  site.schema.searchableFields.foldlM
    (fun found f => do return found.append (← stepField ctx term run site f)) ⟨[], []⟩

/-- A search at one site goes on at another. -/
structure Calls (ctx : Context) (site next : SearchSite) : Prop where
  chain : next.chain = site.chain ++ [next.schema.entity]
  fresh : next.schema.entity ∉ site.chain
  shallow : ∃ path, ctx.checkDepth site.chain.length path = .ok ()

/-- A search without a budget comes to an end: it goes on along a relation without infinite descent, and the
    search with a budget does what it does. -/
structure Terminates (ctx : Context) (term : String) (n : Nat) : Prop where
  wellFounded : WellFounded fun next site => Calls ctx site next
  respects : ∀ (site : SearchSite) (run run' : SearchSite → Traced SearchPart),
    (∀ next, Calls ctx site next → run next = run' next) →
      searchStep ctx term run site = searchStep ctx term run' site
  unfolds : ∀ site : SearchSite, search ctx term (n + 1 - site.chain.length) site =
    searchStep ctx term (fun next => search ctx term (n + 1 - next.chain.length) next) site

section Recursion

variable {ctx : Context} {n : Nat} {term : String}

theorem checkDepth_of_le (limit : ctx.maxDepth = .int n) {depth : Nat} (short : depth ≤ n) (path : String) :
    ctx.checkDepth depth path = .ok () := by
  rw [checkDepth_eq limit, if_neg (by omega)]

theorem checkDepth_of_lt (limit : ctx.maxDepth = .int n) {depth : Nat} (long : n < depth) (path : String) :
    ctx.checkDepth depth path = .error (.tooDeep path ctx.maxDepth) := by
  rw [checkDepth_eq limit, if_pos (by omega)]

theorem wellFounded_calls (limit : ctx.maxDepth = .int n) :
    WellFounded fun next site => Calls ctx site next := by
  refine Subrelation.wf ?_ (measure fun site : SearchSite => n + 1 - site.chain.length).wf
  intro next site calls
  obtain ⟨path, shallow⟩ := calls.shallow
  have short : site.chain.length ≤ n := by
    by_contra long
    rw [checkDepth_of_lt limit (by omega)] at shallow
    cases shallow
  have longer : next.chain.length = site.chain.length + 1 := by rw [calls.chain]; simp
  show n + 1 - next.chain.length < n + 1 - site.chain.length
  omega

theorem Traced.bind_ok {α β : Type} (a : α) (f : α → Traced β) : (Traced.lift (.ok a) >>= f) = f a := rfl

theorem Traced.bind_congr {α β : Type} {x : Traced α} {f g : α → Traced β}
    (same : ∀ a, x.result = .ok a → f a = g a) : (x >>= f) = (x >>= g) := by
  show Traced.andThen x f = Traced.andThen x g
  unfold Traced.andThen
  cases outcome : x.result with
  | error e => rfl
  | ok a => simp only [same a outcome]

theorem searchRelation_congr {site : SearchSite} {f : Field} {related : Schema}
    {run run' : SearchSite → Traced SearchPart}
    (same : ∀ next : SearchSite, next.schema = related → next.chain = site.chain ++ [related.entity] →
      run next = run' next) :
    searchRelation ctx site f related run = searchRelation ctx site f related run' := by
  have behind : ∀ table walked, run ⟨related, table, walked, site.chain ++ [related.entity]⟩ =
      run' ⟨related, table, walked, site.chain ++ [related.entity]⟩ := fun _ _ => same _ rfl rfl
  simp only [searchRelation, behind]

/-- A search goes on at sites behind the present one only. -/
theorem searchStep_congr {site : SearchSite} {run run' : SearchSite → Traced SearchPart}
    (same : ∀ next, Calls ctx site next → run next = run' next) :
    searchStep ctx term run site = searchStep ctx term run' site := by
  have each : ∀ f, stepField ctx term run site f = stepField ctx term run' site f := by
    intro f
    unfold stepField
    by_cases relation : f.isRelation = true
    · simp only [relation, Bool.not_true, Bool.false_eq_true, if_false]
      apply Traced.bind_congr
      intro related _
      by_cases cyclic : related.entity ∈ site.chain
      · rw [if_pos cyclic, if_pos cyclic]
        rfl
      · rw [if_neg cyclic, if_neg cyclic]
        apply Traced.bind_congr
        intro _ shallow
        apply searchRelation_congr
        intro next schema chain
        refine same next ⟨?_, ?_, f.name, shallow⟩
        · rw [chain, schema]
        · rwa [schema]
    · simp [relation]
  simp only [searchStep, each]

theorem searchField_eq_stepField (limit : ctx.maxDepth = .int n) (site : SearchSite) (f : Field) :
    searchField ctx term (n + 1 - site.chain.length) site f =
      stepField ctx term (fun next => search ctx term (n + 1 - next.chain.length) next) site f := by
  unfold searchField stepField
  by_cases relation : f.isRelation = true
  · simp only [relation, Bool.not_true, Bool.false_eq_true, if_false]
    apply Traced.bind_congr
    intro related _
    by_cases cyclic : related.entity ∈ site.chain
    · rw [if_pos cyclic, if_pos cyclic]
      rfl
    · rw [if_neg cyclic, if_neg cyclic]
      by_cases short : site.chain.length ≤ n
      · obtain ⟨less, rest⟩ : ∃ less, n + 1 - site.chain.length = less + 1 := ⟨n - site.chain.length, by omega⟩
        rw [rest, checkDepth_of_le limit short]
        have behind : searchRelation ctx site f related (search ctx term less) =
            searchRelation ctx site f related fun next => search ctx term (n + 1 - next.chain.length) next := by
          apply searchRelation_congr
          intro next _ chain
          have longer : next.chain.length = site.chain.length + 1 := by rw [chain]; simp
          rw [show n + 1 - next.chain.length = less by omega]
        exact behind.trans (Traced.bind_ok _ _).symm
      · rw [checkDepth_of_lt limit (by omega), show n + 1 - site.chain.length = 0 by omega]
        simp only [limit]
        rfl
  · simp [relation]

theorem search_eq_searchStep (limit : ctx.maxDepth = .int n) (site : SearchSite) :
    search ctx term (n + 1 - site.chain.length) site =
      searchStep ctx term (fun next => search ctx term (n + 1 - next.chain.length) next) site := by
  rw [search_eq, searchStep]
  simp only [searchField_eq_stepField limit]

end Recursion

/-- A search on an entity succeeds exactly if all its walks are fine. -/
theorem decides_compileSearch {ctx : Context} {c : Catalog} {d : Dialect} {n : Nat} {term : String}
    {subject : Subject} {schema : Schema} (schemas : ctx.Over c) (names : NamesColumns ctx.settings)
    (known : Dialect.resolve ctx.settings ctx.dialect = .ok d) (limit : ctx.maxDepth = .int n)
    (asked : term ≠ "") (described : ctx.schemaOf subject = .ok schema) (table : Option String) :
    Decides (compileSearch ctx term subject table).result
      (WalksWell ctx.schemaOf n [schema.entity] schema.entity) := by
  have budget : Depth.budget ctx.maxDepth = n := by
    rw [limit]
    rfl
  have found := decides_search schemas names known limit term n (.root schema (rootTable schema table))
    (by simp [SearchSite.root]) (schemas.describe_entity described)
  rw [result_compileSearch, if_neg asked, described, budget]
  exact found

/-- A search ends on every graph of entities. It succeeds exactly if every walk along relations with a search
    pattern comes to new entities with a schema only and crosses no more relations than may be; else it reports
    an invalid schema. -/
theorem compileSearch_decides {ctx : Context} {c : Catalog} {d : Dialect} {n : Nat} {term : String}
    {subject : Subject} {table : Option String} {schema : Schema} (schemas : ctx.Over c)
    (names : NamesColumns ctx.settings) (known : Dialect.resolve ctx.settings ctx.dialect = .ok d)
    (limit : ctx.maxDepth = .int n) (asked : term ≠ "") (described : ctx.schemaOf subject = .ok schema) :
    Terminates ctx term n ∧ Decides (compileSearch ctx term subject table).result
      (WalksWell ctx.schemaOf n [schema.entity] schema.entity) :=
  ⟨⟨wellFounded_calls limit, fun _ _ _ => searchStep_congr, search_eq_searchStep limit⟩,
    decides_compileSearch schemas names known limit asked described table⟩

namespace Books

/-- Volumes on shelves in rooms, which are searched along, and links that lead back to links. -/
def shelved : List EntityDecl :=
  let along : Option Tag := some { search := some "*" }
  [{ name := "Room", table := some "room", fields := [⟨"Name", .scalar .string, some { search := some "*%" }⟩] },
    { name := "Shelf", table := some "shelf", fields :=
      [⟨"Label", .scalar .string, some { search := some "%*%" }⟩, ⟨"Room", .entity "Room", along⟩] },
    { name := "Volume", table := some "volume", fields :=
      [⟨"Shelf", .entity "Shelf", along⟩, ⟨"Title", .scalar .string, some { search := some "%*" }⟩,
        ⟨"Sequel", .entity "Volume", none⟩] },
    { name := "Link", table := some "link", fields := [⟨"Next", .entity "Link", along⟩] }]

/-- A search on them may cross `n` relations. -/
def shelving (n : Nat) : Context :=
  { settings := {}, schemaOf := ({} : Cache).describe (.ofDecls shelved), dialect := some "ansi"
    maxDepth := .int n }

end Books

/-- Rooms are two relations away from volumes, and links go round in a circle. -/
theorem compileSearch_decides_shelves :
    (∃ part, (compileSearch (Books.shelving 2) "x" (.entity "Volume") none).result = .ok part ∧
      WalksWell (Books.shelving 2).schemaOf 2 ["Volume"] "Volume") ∧
    (∃ e, (compileSearch (Books.shelving 1) "x" (.entity "Volume") none).result = .error e ∧
      e.IsInvalidSchema ∧ ¬WalksWell (Books.shelving 1).schemaOf 1 ["Volume"] "Volume") ∧
    ∃ e, (compileSearch (Books.shelving 7) "x" (.entity "Link") none).result = .error e ∧
      e.IsInvalidSchema ∧ ¬WalksWell (Books.shelving 7).schemaOf 7 ["Link"] "Link" := by
  have names : NamesColumns {} := ⟨⟨_, rfl⟩, ⟨_, rfl⟩, ⟨_, rfl⟩⟩
  have decides : ∀ {n entity schema}, (Books.shelving n).schemaOf (.entity entity) = .ok schema →
      Decides (compileSearch (Books.shelving n) "x" (.entity entity) none).result
        (WalksWell (Books.shelving n).schemaOf n [schema.entity] schema.entity) := by
    intro n entity schema described
    exact (compileSearch_decides (fun _ => rfl) names rfl rfl (by decide) described).2
  have fails : ∀ {n entity schema e}, (Books.shelving n).schemaOf (.entity entity) = .ok schema →
      (compileSearch (Books.shelving n) "x" (.entity entity) none).result = .error e →
      e.IsInvalidSchema ∧ ¬WalksWell (Books.shelving n).schemaOf n [schema.entity] schema.entity := by
    intro n entity schema e described failed
    refine ⟨(decides described).1 e failed, fun well => ?_⟩
    obtain ⟨part, ok⟩ := (decides described).2.mpr well
    rw [failed] at ok
    cases ok
  refine ⟨?_, ?_, ?_⟩
  · obtain ⟨part, ok⟩ : ∃ part, (compileSearch (Books.shelving 2) "x" (.entity "Volume") none).result =
        .ok part := ⟨_, rfl⟩
    exact ⟨part, ok, (decides rfl).2.mp ⟨part, ok⟩⟩
  · obtain ⟨e, failed⟩ : ∃ e, (compileSearch (Books.shelving 1) "x" (.entity "Volume") none).result =
        .error e := ⟨_, rfl⟩
    exact ⟨e, failed, fails rfl failed⟩
  · obtain ⟨e, failed⟩ : ∃ e, (compileSearch (Books.shelving 7) "x" (.entity "Link") none).result =
        .error e := ⟨_, rfl⟩
    exact ⟨e, failed, fails rfl failed⟩

end RowQuery.Compile
