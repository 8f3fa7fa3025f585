import RowQuery.Proofs.Compilation

/-!
# The root table under another name

Filters may be compiled with another name for the root table. The name qualifies the columns of the root, and
behind the first relation nothing depends on it. But a relation that starts at the root takes more from its outer
table than a qualifier: through a pivot table the name of a column, where it is polymorphic the text that related
rows are told apart by. There the alias goes where the name of the table belongs, and nowhere else.
-/

namespace RowQuery.Sql

/-! ## The qualifier of the root -/

/-- A column of the root, which goes by a name. -/
def Column.under (name : String) (c : Column) : Column := { c with table := some name }

def Expr.under (name : String) : Expr → Expr
  | .column c => .column (c.under name)
  | .jsonText c keys => .jsonText (c.under name) keys
  | .language c code => .language (c.under name) code

namespace Predicate

/-- A condition on the root, which goes by a name: the name qualifies all columns outside of subselects, and those
    inside of them stay as they are. -/
def underRoot (name : String) : Predicate → Predicate
  | .test lhs t => .test (lhs.under name) t
  | .anyLanguage c found pattern => .anyLanguage (c.under name) found pattern
  | .sameColumn a b => .sameColumn (a.under name) (b.under name)
  | .hasText c value => .hasText (c.under name) value
  | .and p q => .and (p.underRoot name) (q.underRoot name)
  | .or p q => .or (p.underRoot name) (q.underRoot name)
  | .group p => .group (p.underRoot name)
  | .inSelect lhs selected source p => .inSelect (lhs.under name) selected source p

theorem args_underRoot (name : String) (p : Predicate) : (p.underRoot name).args = p.args := by
  induction p with
  | test | anyLanguage | sameColumn | hasText | inSelect => rfl
  | and p q ihp ihq | or p q ihp ihq => rw [underRoot, args, args, ihp, ihq]
  | group p ih => exact ih

/-- The name that was given last counts. -/
theorem underRoot_underRoot (name other : String) (p : Predicate) :
    (p.underRoot other).underRoot name = p.underRoot name := by
  induction p with
  | test lhs t => cases lhs <;> rfl
  | anyLanguage | sameColumn | hasText | inSelect => rfl
  | and p q ihp ihq | or p q ihp ihq => rw [underRoot, underRoot, underRoot, ihp, ihq]
  | group p ih => rw [underRoot, underRoot, underRoot, ih]

theorem underRoot_anyOf (name : String) (p : Predicate) (ps : List Predicate) :
    (anyOf p ps).underRoot name = anyOf (p.underRoot name) (ps.map (·.underRoot name)) := by
  induction ps generalizing p with
  | nil => rfl
  | cons q qs ih => rw [anyOf, underRoot, ih, List.map_cons, anyOf]

end Predicate

end RowQuery.Sql

namespace RowQuery.Compile

open RowQuery.Schema RowQuery.Sql RowQuery.Join

/-! ## Columns of the root -/

section Columns

variable (ctx : Context) (name : String)

theorem expr_under (f : Field) (language : Detail) :
    ctx.localizer.expr f (some name) language =
      (ctx.localizer.expr f none language).map (Expr.under name) := by
  simp only [Localizer.expr, Localizer.column]
  cases Dialect.resolve ctx.localizer.settings ctx.localizer.dialect with
  | error e => rfl
  | ok d =>
    show (if _ then _ else _) = Except.map _ (if _ then _ else _)
    split
    · cases (ctx.localizer.languageOr language).quotable <;> rfl
    · rfl

theorem anyLanguage_underRoot (f : Field) (flt : Filter) :
    ctx.localizer.anyLanguage f (some name) flt =
      (ctx.localizer.anyLanguage f none flt).map (Predicate.underRoot name) := by
  simp only [Localizer.anyLanguage, Localizer.column]
  cases Dialect.resolve ctx.localizer.settings ctx.localizer.dialect with
  | error e => rfl
  | ok d =>
    show (if _ then _ else _) = Except.map _ (if _ then _ else _)
    split
    · rfl
    · split
      · rfl
      · cases flt.operation with
        | oneOf | oneOfAlt =>
          cases flt.rawValues.map escapeLike with
          | nil => rfl
          | cons v vs =>
            simp [pure, Except.pure, Except.map, Predicate.underRoot, Predicate.underRoot_anyOf, Column.under,
              Function.comp_def]
        | _ => rfl

theorem leafCondition_underRoot (flt : Filter) (f : Field) :
    leafCondition ctx flt f (some name) =
      (leafCondition ctx flt f none).map (Predicate.underRoot name) := by
  simp only [leafCondition]
  split
  · exact anyLanguage_underRoot ctx name f flt
  · rw [expr_under ctx name]
    cases ctx.localizer.expr f none .null with
    | error e => rfl
    | ok lhs => cases flt.test (if f.translated then some .string else f.kind) <;> rfl

theorem innerExpr_under (entity path : String) (f : Field) (rest : List String) :
    innerExpr ctx entity path f (some name) rest =
      (innerExpr ctx entity path f none rest).map (Expr.under name) := by
  simp only [innerExpr, Context.column]
  cases Dialect.resolve ctx.settings ctx.dialect with
  | error e => rfl
  | ok d =>
    show (if _ then _ else _) = Except.map _ (if _ then _ else _)
    split
    · rfl
    · cases f.translated with
      | false => rfl
      | true => rcases rest with _ | ⟨language, _ | ⟨next, more⟩⟩ <;> rfl

end Columns

/-! ## Runs side by side -/

/-- Runs that fail in the same way for a caller, or come to results that are related. -/
inductive Matched {α : Type} (R : α → α → Prop) : Except Error α → Except Error α → Prop where
  | failed {e e' : Error} (same : e.fault = e'.fault) : Matched R (.error e) (.error e')
  | done {a b : α} (related : R a b) : Matched R (.ok a) (.ok b)

namespace Matched

variable {α β : Type}

theorem bind {S : α → α → Prop} {R : β → β → Prop} {x y : Except Error α} {f g : α → Except Error β}
    (first : Matched S x y) (rest : ∀ a b, S a b → Matched R (f a) (g b)) :
    Matched R (x >>= f) (y >>= g) := by
  cases first with
  | failed same => exact .failed same
  | done related => exact rest _ _ related

theorem after {R : β → β → Prop} {x : Except Error α} {f g : α → Except Error β}
    (rest : ∀ a, x = .ok a → Matched R (f a) (g a)) : Matched R (x >>= f) (x >>= g) := by
  cases first : x with
  | error e => exact .failed rfl
  | ok a => exact rest a first

theorem of_map {R : β → β → Prop} {x : Except Error α} {f g : α → β} (related : ∀ a, R (f a) (g a)) :
    Matched R (x.map f) (x.map g) := by
  cases x with
  | error e => exact .failed rfl
  | ok a => exact .done (related a)

/-- Runs over the same items, which pair up what they come to. -/
theorem mapM {R : α → β → β → Prop} {f g : α → Except Error β} (each : ∀ x, Matched (R x) (f x) (g x))
    (xs : List α) :
    Matched (fun ys zs => ∃ pairs, ys = pairs.map Prod.fst ∧ zs = pairs.map Prod.snd ∧
      List.Forall₂ (fun x pair => R x pair.1 pair.2) xs pairs) (xs.mapM f) (xs.mapM g) := by
  induction xs with
  | nil => exact .done ⟨[], rfl, rfl, .nil⟩
  | cons x xs ih =>
    rw [List.mapM_cons, List.mapM_cons]
    refine (each x).bind fun y z first => ih.bind ?_
    rintro _ _ ⟨pairs, rfl, rfl, rest⟩
    exact .done ⟨(y, z) :: pairs, rfl, rfl, .cons first rest⟩

end Matched

/-! ## Filters on an aliased root -/

/-- A path that starts with a registered relation, which is left to a join. -/
def Joins (ctx : Context) (schema : Schema) (path : Path) : Prop :=
  ∃ f entry, schema.get? path.head = some f ∧ f.isRelation = true ∧ path.rest ≠ [] ∧
    ctx.registered? (some "") path.head = some entry

/-- A path that starts with a relation that is not registered and goes through a pivot table or is polymorphic. -/
def Leaks (ctx : Context) (schema : Schema) (path : Path) : Prop :=
  ∃ f, schema.get? path.head = some f ∧ path.rest ≠ [] ∧ ctx.registered? (some "") path.head = none ∧
    (f.relation = .manyToMany ∨ f.relation = .polymorphic)

/-- The conditions of a relation of the root by two names: one that qualifies the columns of the root, and one of
    the table that the column of the pivot table is named for, or that owns the related rows. -/
inductive Owned (settings : Settings) : (String → String → Predicate) → Prop where
  | pivot {suffix : String} (written : settings.foreignKeySuffix = .text suffix)
      (through toRelated related key : String) (p : Predicate) :
      Owned settings fun name owner =>
        .inSelect ⟨some name, key, true⟩ ⟨none, owner ++ suffix, false⟩ through
          (.inSelect ⟨none, toRelated, false⟩ ⟨none, key, true⟩ related p)
  | discriminator (related key idColumn typeColumn : String) (p : Predicate) :
      Owned settings fun name owner =>
        .inSelect (.of name key) (.of related idColumn) related
          (.and (.and p (.sameColumn (.of related idColumn) (.of name key))) (.hasText (.of related typeColumn) owner))

/-- What an alias does to the condition of a filter. -/
structure Aliased (ctx : Context) (schema : Schema) (nick : String) (path : Path) (p p' : Predicate) : Prop where
  args : p'.args = p.args
  /-- A joined table is no matter of the alias. -/
  joined : Joins ctx schema path → p' = p
  /-- The table qualifies the columns of the root, the alias does so in its place, and nothing else is changed. -/
  renamed : ¬ Joins ctx schema path → ¬ Leaks ctx schema path →
    p.underRoot schema.table = p ∧ p.underRoot nick = p'
  /-- The alias is in the place of the qualifier, where it belongs, and in that of the owner, where it does not. -/
  leaked : Leaks ctx schema path → ∃ made, Owned ctx.settings made ∧ p = made schema.table schema.table ∧
    p' = made nick nick ∧ (nick ≠ schema.table → p' ≠ made nick schema.table)

section Walks

variable {ctx : Context} {schema : Schema} {nick : String} {path : Path}

theorem not_leaks_of_relation {f : Field} (found : schema.get? path.head = some f)
    (pivotless : f.relation ≠ .manyToMany) (unowned : f.relation ≠ .polymorphic) : ¬ Leaks ctx schema path := by
  rintro ⟨g, same, _, _, kind⟩
  cases found.symm.trans same
  exact kind.elim pivotless unowned

theorem not_joins_of_unregistered (unregistered : ctx.registered? (some "") path.head = none) :
    ¬ Joins ctx schema path := by
  rintro ⟨_, _, _, _, _, registered⟩
  cases unregistered.symm.trans registered

theorem not_leaks_of_joins (joins : Joins ctx schema path) : ¬ Leaks ctx schema path := by
  rintro ⟨_, _, _, unregistered, _⟩
  exact not_joins_of_unregistered unregistered joins

namespace Owned

variable {settings : Settings} {made : String → String → Predicate}

theorem args_eq (owned : Owned settings made) (name owner name' owner' : String) :
    (made name owner).args = (made name' owner').args := by
  cases owned <;> rfl

/-- The owner can be told from the condition. -/
theorem owner_inj (owned : Owned settings made) {name owner owner' : String}
    (same : made name owner = made name owner') : owner = owner' := by
  cases owned with
  | pivot =>
    have names := congrArg Column.name (Predicate.inSelect.inj same).2.1
    exact (String.append_left_inj _).mp names
  | discriminator =>
    have texts := (Predicate.and.inj (Predicate.inSelect.inj same).2.2.2).2
    exact (Predicate.hasText.inj texts).2

end Owned

/-- A condition that does not depend on the root. -/
theorem Aliased.of_joined (joins : Joins ctx schema path) (p : Predicate) : Aliased ctx schema nick path p p where
  args := rfl
  joined _ := rfl
  renamed unjoined := absurd joins unjoined
  leaked leaks := absurd leaks (not_leaks_of_joins joins)

/-- A condition on the root, under both names. -/
theorem Aliased.of_root (unjoined : ¬ Joins ctx schema path) (tight : ¬ Leaks ctx schema path) (p : Predicate) :
    Aliased ctx schema nick path (p.underRoot schema.table) (p.underRoot nick) where
  args := by rw [Predicate.args_underRoot, Predicate.args_underRoot]
  joined joins := absurd joins unjoined
  renamed _ _ := ⟨Predicate.underRoot_underRoot _ _ p, Predicate.underRoot_underRoot _ _ p⟩
  leaked leaks := absurd leaks tight

theorem Aliased.of_owned (leaks : Leaks ctx schema path) {made : String → String → Predicate}
    (owned : Owned ctx.settings made) :
    Aliased ctx schema nick path (made schema.table schema.table) (made nick nick) where
  args := owned.args_eq nick nick schema.table schema.table
  joined joins := absurd leaks (not_leaks_of_joins joins)
  renamed _ tight := absurd leaks tight
  leaked _ := ⟨made, owned, rfl, rfl, fun other same => other (owned.owner_inj same)⟩

/-- Columns that are named after two tables. They are named or not by the suffix alone. -/
theorem keyColumn_matched (settings : Settings) (table nick : String) :
    Matched (fun name name' => ∃ suffix, settings.foreignKeySuffix = .text suffix ∧ name = table ++ suffix ∧
      name' = nick ++ suffix) (settings.keyColumn table) (settings.keyColumn nick) := by
  unfold Settings.keyColumn
  cases settings.foreignKeySuffix with
  | text suffix => exact .done ⟨suffix, rfl, rfl, rfl⟩
  | _ => exact .failed rfl

/-- The frames of a relation of the root, around the same condition. -/
theorem relationFrames_aliased (nick : String) (path : Path) {f : Field} (found : schema.get? path.head = some f)
    (longer : path.rest ≠ []) (unregistered : ctx.registered? (some "") path.head = none) (related : String)
    (p : Predicate) :
    Matched (fun frames frames' => Aliased ctx schema nick path (Frame.nest frames p) (Frame.nest frames' p))
      (relationFrames ctx.settings ctx.dialect f schema.table related)
      (relationFrames ctx.settings ctx.dialect f nick related) := by
  unfold relationFrames
  cases kind : f.relation with
  | none => exact .failed rfl
  | direct =>
    have tight : ¬ Leaks ctx schema path := not_leaks_of_relation found (by simp [kind]) (by simp [kind])
    -- The subselect of a direct relation has one column of the root, in front of it.
    exact .after fun _ _ => .after fun key _ => .done (.of_root (not_joins_of_unregistered unregistered) tight
      (.inSelect ⟨none, f.foreignColumn ctx.settings, false⟩ (.of related key) related p))
  | manyToMany =>
    have leaks : Leaks ctx schema path := ⟨f, found, longer, unregistered, .inl kind⟩
    refine (keyColumn_matched ctx.settings schema.table nick).bind fun toOuter toNick column => ?_
    obtain ⟨suffix, written, rfl, rfl⟩ := column
    exact .after fun _ _ => .after fun toRelated _ => .after fun through _ =>
      .done (.of_owned leaks (.pivot written through toRelated related _ p))
  | polymorphic =>
    have leaks : Leaks ctx schema path := ⟨f, found, longer, unregistered, .inr kind⟩
    exact .after fun _ _ => .after fun key _ => .after fun idColumn _ => .after fun typeColumn _ =>
      .done (.of_owned leaks (.discriminator related key idColumn typeColumn p))

/-- A walk that starts at the alias, step by step beside the one that starts at the table. Only the first step sees
    the name. -/
theorem narrow_aliased (ctx : Context) (flt : Filter) (path : Path) (schema : Schema) (nick : String) :
    Matched (fun n n' => n.paths = n'.paths ∧ Aliased ctx schema nick path n.condition n'.condition)
      (narrow ctx flt path.rest path.head (.root schema schema.table)).result
      (narrow ctx flt path.rest path.head (.root schema nick)).result := by
  obtain ⟨head, rest⟩ := path
  cases rest with
  | nil =>
    have unjoined : ¬ Joins ctx schema ⟨head, []⟩ := fun ⟨_, _, _, _, longer, _⟩ => longer rfl
    have tight : ¬ Leaks ctx schema ⟨head, []⟩ := fun ⟨_, _, longer, _⟩ => longer rfl
    rw [result_narrow_nil, result_narrow_nil]
    refine .after fun _ _ => .after fun f _ => ?_
    split
    · exact .failed rfl
    · have leaf : ∀ name, leafCondition ctx flt f (Site.root schema name).qualifier =
          (leafCondition ctx flt f none).map (Predicate.underRoot name) :=
        fun name => leafCondition_underRoot ctx name flt f
      rw [leaf, leaf]
      exact (Matched.of_map (Aliased.of_root unjoined tight)).bind fun _ _ related => .done ⟨rfl, related⟩
  | cons next more =>
    rw [result_narrow_cons, result_narrow_cons]
    refine .after fun _ _ => .after fun f found => ?_
    replace found := get?_of_field found
    split
    case isTrue relation =>
      refine .after fun related _ => ?_
      -- The sites behind the relation hold no name of the root, so both walks go on from the same one.
      cases registered : ctx.registered? (some "") head with
      | some entry =>
        have joins : Joins ctx schema ⟨head, next :: more⟩ :=
          ⟨f, entry, found, relation, List.cons_ne_nil next more, registered⟩
        simp only [Site.root, registered]
        exact .after fun n _ => .done ⟨rfl, .of_joined joins n.condition⟩
      | none =>
        simp only [Site.root, registered]
        refine .after fun n _ => ?_
        have framed := relationFrames_aliased nick ⟨head, next :: more⟩ found (List.cons_ne_nil next more)
          registered related.table n.condition
        exact framed.bind fun _ _ aliased => .done ⟨rfl, aliased⟩
    case isFalse column =>
      have plain : f.relation = .none := by simpa [Field.isRelation] using column
      have unjoined : ¬ Joins ctx schema ⟨head, next :: more⟩ := by
        rintro ⟨g, _, same, relation, _⟩
        cases found.symm.trans same
        exact column relation
      have tight : ¬ Leaks ctx schema ⟨head, next :: more⟩ :=
        not_leaks_of_relation found (by simp [plain]) (by simp [plain])
      have inner : ∀ name, innerExpr ctx (Site.root schema name).schema.entity flt.name f
          (Site.root schema name).qualifier (next :: more) =
            (innerExpr ctx schema.entity flt.name f none (next :: more)).map (Expr.under name) :=
        fun name => innerExpr_under ctx name schema.entity flt.name f (next :: more)
      rw [inner, inner]
      refine Matched.bind (S := fun e e' => ∃ lhs : Expr, e = lhs.under schema.table ∧ e' = lhs.under nick)
        (.of_map fun lhs => ⟨lhs, rfl, rfl⟩) ?_
      rintro _ _ ⟨lhs, rfl, rfl⟩
      exact .after fun t _ => .done ⟨rfl, .of_root unjoined tight (.test lhs t)⟩

end Walks

/-- What an alias does to filters. -/
structure FilterPart.Aliased (ctx : Context) (schema : Schema) (nick : String) (filters : List Filter)
    (part part' : FilterPart) : Prop where
  args : part'.args = part.args
  paths : part'.paths = part.paths
  each : ∃ pairs, part.conditions = pairs.map Prod.fst ∧ part'.conditions = pairs.map Prod.snd ∧
    List.Forall₂ (fun flt pair => Compile.Aliased ctx schema nick flt.path pair.1 pair.2) filters pairs

section Parts

variable {ctx : Context} {schema : Schema} {nick : String} {filters : List Filter}
  {pairs : List (Predicate × Predicate)}

theorem argsOf_aliased
    (each : List.Forall₂ (fun flt pair => Aliased ctx schema nick flt.path pair.1 pair.2) filters pairs) :
    argsOf (pairs.map Prod.snd) = argsOf (pairs.map Prod.fst) := by
  induction each with
  | nil => rfl
  | cons first _ ih => simp only [argsOf, List.map_cons, List.flatMap_cons, first.args] at ih ⊢; rw [ih]

theorem paths_aliased {found : List (Narrowing × Narrowing)}
    (each : List.Forall₂ (fun flt pair => pair.1.paths = pair.2.paths ∧
      Aliased ctx schema nick flt.path pair.1.condition pair.2.condition) filters found) :
    (found.map Prod.fst).flatMap (·.paths) = (found.map Prod.snd).flatMap (·.paths) := by
  induction each with
  | nil => rfl
  | cons first _ ih => rw [List.map_cons, List.map_cons, List.flatMap_cons, List.flatMap_cons, first.1, ih]

/-- Walks that match make up parts that do. -/
theorem FilterPart.aliased_of_narrowings {found : List (Narrowing × Narrowing)}
    (each : List.Forall₂ (fun flt pair => pair.1.paths = pair.2.paths ∧
      Compile.Aliased ctx schema nick flt.path pair.1.condition pair.2.condition) filters found) :
    Aliased ctx schema nick filters
      ⟨(found.map Prod.fst).map (·.condition), Text.mergeNew [] ((found.map Prod.fst).flatMap (·.paths))⟩
      ⟨(found.map Prod.snd).map (·.condition), Text.mergeNew [] ((found.map Prod.snd).flatMap (·.paths))⟩ := by
  let pairs := found.map fun pair => (pair.1.condition, pair.2.condition)
  have conditions : List.Forall₂ (fun flt pair => Compile.Aliased ctx schema nick flt.path pair.1 pair.2) filters
      pairs := List.forall₂_map_right_iff.mpr (each.imp fun _ _ pair => pair.2)
  have firsts : (found.map Prod.fst).map (·.condition) = pairs.map Prod.fst := by simp [pairs]
  have seconds : (found.map Prod.snd).map (·.condition) = pairs.map Prod.snd := by simp [pairs]
  rw [firsts, seconds, paths_aliased each]
  exact ⟨argsOf_aliased conditions, rfl, pairs, rfl, rfl, conditions⟩

end Parts

theorem rootTable_some (schema : Schema) {nick : String} (named : nick ≠ "") :
    rootTable schema (some nick) = nick := by
  simp [rootTable, nonEmpty?, Option.filter, named]

/-- Filters that are compiled with another name for the root table bind the same values and go through the same
    registered relations. The name qualifies the columns of the root in the place of the table, and nothing else is
    changed, unless a filter starts with a relation that is not registered and goes through a pivot table or is
    polymorphic: there the name also stands for the table in the name of the pivot column, or in the text of the
    discriminator. -/
theorem compileFilters_alias (ctx : Context) (filters : List Filter) (subject : Subject) {nick : String}
    (named : nick ≠ "") :
    Matched (fun part part' => ∃ schema, ctx.schemaOf subject = .ok schema ∧
        FilterPart.Aliased ctx schema nick filters part part')
      (compileFilters ctx filters subject none).result (compileFilters ctx filters subject (some nick)).result := by
  rw [result_compileFilters, result_compileFilters]
  refine .after fun schema described => ?_
  rw [rootTable_some schema named]
  refine (Matched.mapM (fun flt => narrow_aliased ctx flt flt.path schema nick) filters).bind ?_
  rintro _ _ ⟨found, rfl, rfl, each⟩
  exact .done ⟨schema, described, FilterPart.aliased_of_narrowings each⟩

namespace Books

/-- Books of which some are editions of others. -/
def edition : Schema :=
  { book with
    fields := { name := "Original", column := "Original", relation := .direct, target := some "Book"
                targetTable := some "book" } :: book.fields }

def editions : Context :=
  { context with
    schemaOf := fun
      | .entity "Book" => .ok edition
      | subject => schemaOf subject }

/-- Filters on a column of books, and behind relations of each kind, one of which leads to books again. -/
def narrowed : List Filter :=
  [⟨"Title", .equal, "Emma"⟩, ⟨"Original.Title", .equal, "Emma"⟩, ⟨"Author.Name", .equal, "Austen"⟩,
    ⟨"Tags.Label", .equal, "novel"⟩, ⟨"Notes.Body", .equal, "Lent."⟩]

/-- A test that a column has a text. -/
def hasValue (c : Column) (value : String) : Predicate := .test (.column c) (.compare .equal (.str value))

/-- The condition on tags, where books go by a name and the pivot table has a column for an owner. -/
def withTag (name owner : String) : Predicate :=
  .inSelect ⟨some name, "ID", true⟩ ⟨none, owner ++ "ID", false⟩ "book_tag"
    (.inSelect ⟨none, "tagID", false⟩ ⟨none, "ID", true⟩ "tag" (hasValue ⟨none, "label", false⟩ "novel"))

/-- The condition on notes, where books go by a name and notes belong to an owner. -/
def withNote (name owner : String) : Predicate :=
  .inSelect (.of name "ID") (.of "note" "OwnerID") "note"
    (.and (.and (hasValue (.of "note" "why?") "Lent.") (.sameColumn (.of "note" "OwnerID") (.of name "ID")))
      (.hasText (.of "note" "OwnerType") owner))

end Books

theorem compileFilters_alias_books :
    "b" ≠ "" ∧ ∃ part part', (compileFilters Books.editions Books.narrowed (.entity "Book") none).result = .ok part ∧
      (compileFilters Books.editions Books.narrowed (.entity "Book") (some "b")).result = .ok part' ∧
      FilterPart.Aliased Books.editions Books.edition "b" Books.narrowed part part' ∧
      part'.conditions.take 3 = [Books.hasValue (.of "b" "title") "Emma",
        .inSelect (.of "b" "OriginalID") (.of "book" "ID") "book" (Books.hasValue (.of "book" "title") "Emma"),
        .inSelect (.of "b" "AuthorID") (.of "author" "ID") "author" (Books.hasValue (.of "author" "name") "Austen")] := by
  have named : "b" ≠ "" := by decide
  have matched := compileFilters_alias Books.editions Books.narrowed (.entity "Book") named
  obtain ⟨part, ok⟩ : ∃ part,
      (compileFilters Books.editions Books.narrowed (.entity "Book") none).result = .ok part := ⟨_, rfl⟩
  obtain ⟨part', ok', first⟩ : ∃ part,
      (compileFilters Books.editions Books.narrowed (.entity "Book") (some "b")).result = .ok part ∧
      part.conditions.take 3 = _ := ⟨_, rfl, rfl⟩
  rw [ok, ok'] at matched
  cases matched with
  | done related =>
    obtain ⟨schema, described, aliased⟩ := related
    cases described
    exact ⟨named, part, part', ok, ok', aliased, first⟩

/-- No table is called "b", but behind tags a column of the pivot table is named for it, and behind notes the rows
    that are looked for belong to it. -/
theorem alias_in_place_of_books :
    (compileFilters Books.context [⟨"Tags.Label", .equal, "novel"⟩, ⟨"Notes.Body", .equal, "Lent."⟩] (.entity "Book")
      none).result = .ok ⟨[Books.withTag "book" "book", Books.withNote "book" "book"], []⟩ ∧
    (compileFilters Books.context [⟨"Tags.Label", .equal, "novel"⟩, ⟨"Notes.Body", .equal, "Lent."⟩] (.entity "Book")
      (some "b")).result = .ok ⟨[Books.withTag "b" "b", Books.withNote "b" "b"], []⟩ ∧
    Books.withTag "b" "b" ≠ Books.withTag "b" "book" ∧ Books.withNote "b" "b" ≠ Books.withNote "b" "book" := by
  refine ⟨rfl, rfl, ?_, ?_⟩
  · decide
  · decide

end RowQuery.Compile
