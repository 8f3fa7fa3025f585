import Mathlib.Data.List.TakeDrop
import RowQuery.Proofs.Placeholders
import RowQuery.Proofs.SearchWalks

/-!
# What a search covers

A search looks at every column with a search pattern that relations with one lead to, each occurrence once
and in depth-first order. It binds the pattern of each of them, with the term in the place of its star, to
one `LIKE ?` of the condition. What it binds does not depend on joins, language, dialect and table.
-/

namespace RowQuery.Compile

open RowQuery.Schema RowQuery.Sql

/-- A pattern is filled by putting the term in the place of its star. -/
theorem fillPattern_eq {before after term : String} (first : '*' ∉ before.toList) :
    fillPattern (before ++ "*" ++ after) term = before ++ term ++ after := by
  have other : ∀ c ∈ before.toList, (c != '*') = true := by
    intro c member
    simpa using ne_of_mem_of_not_mem member first
  have cut : (before ++ "*" ++ after).toList.span (· != '*') = (before.toList, '*' :: after.toList) := by
    rw [List.span_eq_takeWhile_dropWhile]
    simp [List.takeWhile_append_of_pos other, List.dropWhile_append_of_pos other]
  rw [fillPattern, cut]
  apply String.toList_inj.mp
  simp

/-- A text with one star is what stands before it, the star, and what stands behind it. -/
theorem exists_star {pattern : String} (one : pattern.toList.count '*' = 1) :
    ∃ before after, pattern = before ++ "*" ++ after ∧ '*' ∉ before.toList ∧ '*' ∉ after.toList := by
  have star : '*' ∈ pattern.toList := List.count_pos_iff.mp (by omega)
  obtain ⟨before, after, split, fresh⟩ := List.eq_append_cons_of_mem star
  have rest : '*' ∉ after := by
    rw [split, List.count_append, List.count_cons_self] at one
    exact List.count_eq_zero.mp (by omega)
  refine ⟨String.ofList before, String.ofList after, ?_, by simpa using fresh, by simpa using rest⟩
  apply String.toList_inj.mp
  simp [split]

/-! ## Occurrences -/

/-- The columns that some fields lead to in depth-first order, each with the relations before it. -/
inductive Traverses (schemaOf : Subject → Except Error Schema) :
    List Field → List (List Field × Field) → Prop where
  | nil : Traverses schemaOf [] []
  | column {f : Field} {fs : List Field} {later : List (List Field × Field)} (plain : f.isRelation = false)
      (rest : Traverses schemaOf fs later) : Traverses schemaOf (f :: fs) (([], f) :: later)
  | relation {f : Field} {fs : List Field} {next : String} {related : Schema}
      {inner later : List (List Field × Field)} (relation : f.isRelation = true)
      (target : f.target = some next) (described : schemaOf (.entity next) = .ok related)
      (behind : Traverses schemaOf related.searchableFields inner) (rest : Traverses schemaOf fs later) :
      Traverses schemaOf (f :: fs) (inner.map (fun o => (f :: o.1, o.2)) ++ later)

/-- Some fields lead to a column along a trail of relations. -/
inductive Reaches (schemaOf : Subject → Except Error Schema) : List Field → List Field → Field → Prop where
  | here {fields : List Field} {f : Field} (member : f ∈ fields) (plain : f.isRelation = false) :
      Reaches schemaOf fields [] f
  | across {fields trail : List Field} {f g : Field} {next : String} {related : Schema} (member : f ∈ fields)
      (relation : f.isRelation = true) (target : f.target = some next)
      (described : schemaOf (.entity next) = .ok related)
      (behind : Reaches schemaOf related.searchableFields trail g) : Reaches schemaOf fields (f :: trail) g

section Occurrences

variable {schemaOf : Subject → Except Error Schema} {fields : List Field}
  {occurrences : List (List Field × Field)}

theorem Traverses.unique (first : Traverses schemaOf fields occurrences) {others : List (List Field × Field)}
    (second : Traverses schemaOf fields others) : occurrences = others := by
  induction first generalizing others with
  | nil =>
    cases second
    rfl
  | column plain rest ih =>
    cases second with
    | column _ rest' => rw [ih rest']
    | relation isRelation => exact absurd isRelation (by simp [plain])
  | relation isRelation target described behind rest ihBehind ih =>
    cases second with
    | column plain => exact absurd isRelation (by simp [plain])
    | relation _ target' described' behind' rest' =>
      cases target.symm.trans target'
      cases described.symm.trans described'
      rw [ihBehind behind', ih rest']

theorem reaches_cons {f : Field} {trail : List Field} {g : Field} :
    Reaches schemaOf (f :: fields) trail g ↔
      Reaches schemaOf [f] trail g ∨ Reaches schemaOf fields trail g := by
  constructor
  · intro reaches
    cases reaches with
    | here member plain =>
      rcases List.mem_cons.mp member with rfl | later
      · exact .inl (.here (by simp) plain)
      · exact .inr (.here later plain)
    | across member relation target described behind =>
      rcases List.mem_cons.mp member with rfl | later
      · exact .inl (.across (by simp) relation target described behind)
      · exact .inr (.across later relation target described behind)
  · intro either
    rcases either with first | later
    · cases first with
      | here member plain => exact .here (by simp_all) plain
      | across member relation target described behind =>
        exact .across (by simp_all) relation target described behind
    · cases later with
      | here member plain => exact .here (by simp [member]) plain
      | across member relation target described behind =>
        exact .across (by simp [member]) relation target described behind

theorem reaches_column {f g : Field} {trail : List Field} (plain : f.isRelation = false) :
    Reaches schemaOf [f] trail g ↔ (trail, g) = ([], f) := by
  constructor
  · intro reaches
    cases reaches with
    | here member => rw [List.mem_singleton.mp member]
    | across member relation =>
      cases List.mem_singleton.mp member
      exact absurd relation (by simp [plain])
  · intro same
    cases same
    exact .here (by simp) plain

theorem reaches_relation {f g : Field} {trail : List Field} {next : String} {related : Schema}
    (relation : f.isRelation = true) (target : f.target = some next)
    (described : schemaOf (.entity next) = .ok related) :
    Reaches schemaOf [f] trail g ↔
      ∃ more, trail = f :: more ∧ Reaches schemaOf related.searchableFields more g := by
  constructor
  · intro reaches
    cases reaches with
    | here member plain =>
      cases List.mem_singleton.mp member
      exact absurd relation (by simp [plain])
    | across member _ target' described' behind =>
      cases List.mem_singleton.mp member
      cases target.symm.trans target'
      cases described.symm.trans described'
      exact ⟨_, rfl, behind⟩
  · intro behind
    obtain ⟨more, rfl, reaches⟩ := behind
    exact .across (by simp) relation target described reaches

/-- The search comes to the columns that are reached, and to no others. -/
theorem Traverses.mem_iff (traverses : Traverses schemaOf fields occurrences) {trail : List Field}
    {g : Field} : (trail, g) ∈ occurrences ↔ Reaches schemaOf fields trail g := by
  induction traverses generalizing trail g with
  | nil =>
    constructor
    · intro member
      cases member
    · intro reaches
      cases reaches with
      | here member => cases member
      | across member => cases member
  | column plain rest ih => rw [List.mem_cons, ih, reaches_cons, reaches_column plain]
  | relation isRelation target described behind rest ihBehind ih =>
    rw [List.mem_append, ih, reaches_cons, reaches_relation isRelation target described]
    simp only [List.mem_map, Prod.exists, Prod.mk.injEq, ihBehind]
    grind

theorem Reaches.first_mem {trail : List Field} {g : Field} (reaches : Reaches schemaOf fields trail g) :
    trail.headD g ∈ fields := by
  cases reaches with
  | here member => exact member
  | across member => exact member

/-- Where the fields of all entities are distinct, no occurrence is come to twice. -/
theorem Traverses.nodup (distinct : ∀ {subject schema}, schemaOf subject = .ok schema →
      schema.searchableFields.Nodup)
    (traverses : Traverses schemaOf fields occurrences) (nodup : fields.Nodup) : occurrences.Nodup := by
  induction traverses with
  | nil => exact List.nodup_nil
  | column plain rest ih =>
    obtain ⟨fresh, nodup⟩ := List.nodup_cons.mp nodup
    refine List.nodup_cons.mpr ⟨?_, ih nodup⟩
    intro again
    exact fresh (rest.mem_iff.mp again).first_mem
  | relation isRelation target described behind rest ihBehind ih =>
    obtain ⟨fresh, nodup⟩ := List.nodup_cons.mp nodup
    have inner := ihBehind (distinct described)
    -- What lies behind a relation starts with it, so it is told apart from what later fields lead to.
    refine List.nodup_append.mpr ⟨inner.map ?_, ih nodup, ?_⟩
    · intro o o' same
      grind
    · intro o inside o' later same
      obtain ⟨p, _, rfl⟩ := List.mem_map.mp inside
      subst same
      exact fresh (rest.mem_iff.mp later).first_mem

end Occurrences

section Binds

variable {ctx : Context} {fields : List Field}

theorem nodup_searchableFields {decls : List EntityDecl} (schemas : ctx.Over (.ofDecls decls))
    {subject : Subject} {schema : Schema} (ok : ctx.schemaOf subject = .ok schema) :
    schema.searchableFields.Nodup := by
  have described := schemas.describe_entity ok
  rw [schemas] at described
  exact (List.Nodup.of_map _ (Catalog.nodup_describe described)).filter _

theorem related_eq_ok {f : Field} {related : Schema} :
    (ctx.related f).result = .ok related ↔
      ∃ next, f.target = some next ∧ ctx.schemaOf (.entity next) = .ok related := by
  unfold Context.related
  cases target : f.target with
  | none => simp
  | some next => simp

/-- A search goes depth first through the fields and binds a value for each column that it comes to. -/
theorem binds_searched {term : String} {budget : Nat} {site : SearchSite} {found last : SearchPart}
    {leaves : List Field} (search : Searched ctx term budget site fields found last)
    (binds : Binds term found.alternatives leaves) :
    ∃ occurrences, Traverses ctx.schemaOf fields occurrences ∧
      Binds term last.alternatives (leaves ++ occurrences.map (·.2)) := by
  induction search generalizing leaves with
  | done => exact ⟨[], .nil, by simpa using binds⟩
  | column plain searched rest ih =>
    obtain ⟨lhs, expr, rfl⟩ := searchColumn_eq_ok searched
    obtain ⟨later, traverses, all⟩ := ih (binds.append (.column lhs _))
    exact ⟨_, .column plain traverses, by simpa using all⟩
  | joined relation target fresh registered behind rest ihBehind ih =>
    obtain ⟨next, isTarget, described⟩ := related_eq_ok.mp target
    obtain ⟨inner, traversesInner, here⟩ := ihBehind .none
    rw [← alternatives_behindPath] at here
    obtain ⟨later, traverses, all⟩ := ih (binds.append here)
    exact ⟨_, .relation relation isTarget described traversesInner traverses,
      by simpa [Function.comp_def] using all⟩
  | barren relation target fresh unregistered behind rest ihBehind ih =>
    obtain ⟨next, isTarget, described⟩ := related_eq_ok.mp target
    obtain ⟨inner, traversesInner, here⟩ := ihBehind .none
    obtain ⟨later, traverses, all⟩ := ih (binds.append here)
    exact ⟨_, .relation relation isTarget described traversesInner traverses,
      by simpa [Function.comp_def] using all⟩
  | nested relation target fresh unregistered behind framed rest ihBehind ih =>
    obtain ⟨next, isTarget, described⟩ := related_eq_ok.mp target
    obtain ⟨inner, traversesInner, here⟩ := ihBehind .none
    obtain ⟨later, traverses, all⟩ := ih (binds.append (here.nested _ (args_relationFrames framed)))
    exact ⟨_, .relation relation isTarget described traversesInner traverses,
      by simpa [Function.comp_def] using all⟩

theorem binds_compileSearch {term : String} {subject : Subject} {table : Option String} {schema : Schema}
    {part : SearchPart} (asked : term ≠ "") (described : ctx.schemaOf subject = .ok schema)
    (ok : (compileSearch ctx term subject table).result = .ok part) :
    ∃ occurrences, Traverses ctx.schemaOf schema.searchableFields occurrences ∧
      Binds term part.alternatives (occurrences.map (·.2)) := by
  rcases compileSearch_eq_ok ok with ⟨empty, _⟩ | ⟨_, other, same, searched⟩
  · exact absurd empty asked
  · cases described.symm.trans same
    exact binds_searched searched .none

end Binds

/-! ## The text -/

/-- How often `LIKE ?` stands in a text, outside of quoted tokens. -/
def likeMarks : List Lexeme → Nat
  | [] => 0
  | [_] => 0
  | l :: m :: ls => (if l = .word "LIKE" ∧ m = .symbol '?' then 1 else 0) + likeMarks (m :: ls)

theorem likeMarks_le (ls : List Lexeme) : likeMarks ls ≤ placeholders ls.tail := by
  -- The placeholder of a mark is never the first lexeme. With all of `ls` on the right, the induction would
  -- count the placeholder behind `LIKE` twice.
  induction ls with
  | nil => exact Nat.le_refl 0
  | cons l ls ih =>
    cases ls with
    | nil => exact Nat.le_refl 0
    | cons m ls =>
      have first : (if l = .word "LIKE" ∧ m = .symbol '?' then 1 else 0) ≤ placeholders [m] := by
        split
        case isTrue like => rw [like.2]; decide
        case isFalse => exact Nat.zero_le _
      have split : placeholders (m :: ls) = placeholders [m] + placeholders ls := placeholders_append [m] ls
      simp only [List.tail_cons] at ih ⊢
      rw [likeMarks, split]
      omega

theorem le_likeMarks_append (ls ms : List Lexeme) : likeMarks ls + likeMarks ms ≤ likeMarks (ls ++ ms) := by
  induction ls with
  | nil => simp [likeMarks]
  | cons l ls ih =>
    cases ls with
    | nil =>
      cases ms with
      | nil => simp [likeMarks]
      | cons m ms =>
        simp only [likeMarks, List.cons_append, List.nil_append]
        omega
    | cons k ls =>
      simp only [likeMarks, List.cons_append] at ih ⊢
      omega

/-- There is a `LIKE ?` for each leaf. -/
theorem Likes.length_le {backslash : Bool} {d : Dialect} {ls : List Lexeme} {leaves : List Field}
    (likes : Likes backslash d ls leaves) : leaves.length ≤ likeMarks ls := by
  induction likes with
  | rest => exact Nat.zero_le _
  | @leaf before ls e f fs free column later ih =>
    have all := le_likeMarks_append (before ++ lex backslash (e.text d) ++ [.word "LIKE", .symbol '?']) ls
    have one := le_likeMarks_append (before ++ lex backslash (e.text d)) [.word "LIKE", .symbol '?']
    have mark : likeMarks [.word "LIKE", .symbol '?'] = 1 := by decide
    rw [List.length_cons]
    omega

theorem mem_print {t : Token} {ts : List Token} {x : Char} (member : t ∈ ts) (inside : x ∈ t.text.toList) :
    x ∈ (Token.print ts).toList := by
  obtain ⟨before, after, rfl⟩ := List.append_of_mem member
  simp [Token.print, String.join_cons, String.join_append, inside]

theorem space_mem_tokens (d : Dialect) (p : Predicate) : Token.space ∈ p.tokens d := by
  cases p with
  | test lhs t => cases t <;> simp [Predicate.tokens, Test.tokens]
  | anyLanguage => simp [Predicate.tokens]
  | sameColumn => simp [Predicate.tokens, Token.spacedSymbol]
  | hasText => simp [Predicate.tokens, Token.spacedSymbol]
  | and => simp [Predicate.tokens, connectTokens, Token.spaced]
  | or => simp [Predicate.tokens, connectTokens, Token.spaced]
  | group => simp [Predicate.tokens, Token.bracketedSpaced]
  | inSelect => simp [Predicate.tokens, inSelectTokens, Token.spaced]

/-- A search has no text exactly if it has no alternatives. -/
theorem SearchPart.text_eq_empty_iff (d : Dialect) (part : SearchPart) :
    part.text d = "" ↔ part.alternatives = [] := by
  obtain ⟨alternatives, paths⟩ := part
  constructor
  · intro empty
    cases alternatives with
    | nil => rfl
    | cons p ps =>
      have inside : Token.space ∈ SearchPart.tokens d ⟨p :: ps, paths⟩ := by
        have first := space_mem_tokens d p
        have all : Token.space ∈ connectedTokens d "OR" (p :: ps) := by
          cases ps <;> simp [connectedTokens, Token.joined, List.intercalate_cons_cons, first]
        unfold SearchPart.tokens
        split
        · simp [Token.bracketed, all]
        · exact all
      have blank := mem_print inside (show ' ' ∈ Token.space.text.toList by decide)
      rw [SearchPart.text] at empty
      rw [empty] at blank
      cases blank
  · rintro rfl
    rfl

/-- A value is the search pattern of a field with a term in the place of its one star. -/
def Filled (term : String) (f : Field) (v : Value) : Prop :=
  ∃ before after, f.search = some (before ++ "*" ++ after) ∧ '*' ∉ before.toList ∧ '*' ∉ after.toList ∧
    v = .str (before ++ term ++ after)

/-- What is reached from declared fields is declared. -/
theorem Reaches.declared {ctx : Context} {c : Catalog} {fields trail : List Field} {g : Field}
    (schemas : ctx.Over c) (reaches : Reaches ctx.schemaOf fields trail g)
    (known : ∀ f ∈ fields, ∃ name schema, c.describe name = .ok schema ∧ f ∈ schema.searchableFields) :
    ∃ name schema, c.describe name = .ok schema ∧ g ∈ schema.searchableFields := by
  induction reaches with
  | here member => exact known _ member
  | across member relation target described behind ih =>
    apply ih
    intro h inside
    rw [schemas] at described
    exact ⟨_, _, described, inside⟩

theorem filled_leafPattern {c : Catalog} {name term : String} {schema : Schema} {f : Field}
    (ok : c.describe name = .ok schema) (searchable : f ∈ schema.searchableFields) :
    Filled term f (leafPattern term f) := by
  obtain ⟨member, isSome⟩ := List.mem_filter.mp searchable
  obtain ⟨pattern, search⟩ := Option.isSome_iff_exists.mp isSome
  have wellFormed := Catalog.wellFormed_of_describe ok f member
  obtain ⟨before, after, rfl, first, last⟩ := exists_star (wellFormed.search pattern search)
  refine ⟨before, after, search, first, last, ?_⟩
  rw [leafPattern, search, Option.getD_some, fillPattern_eq first]

/-! ## Whole searches -/

/-- A search covers some occurrences of columns. -/
structure SearchCovers (ctx : Context) (term : String) (schema : Schema) (part : SearchPart)
    (occurrences : List (List Field × Field)) : Prop where
  /-- They are in depth-first order. -/
  order : Traverses ctx.schemaOf schema.searchableFields occurrences
  reached : ∀ trail f, (trail, f) ∈ occurrences ↔ Reaches ctx.schemaOf schema.searchableFields trail f
  nodup : occurrences.Nodup
  args : List.Forall₂ (fun o v => Filled term o.2 v) occurrences part.args
  likes : PlainKey ctx.settings → ∀ backslash,
    likeMarks (lex backslash (part.text ctx.style)) = occurrences.length
  empty : part.text ctx.style = "" ↔ occurrences = []

/-- The same schemas and settings with other joins, language and dialect. -/
def Context.under (ctx : Context) (registry : Option Join.Registry) (language dialect : Option String) :
    Context :=
  { ctx with registry, language, dialect }

section Whole

variable {ctx : Context} {term : String} {subject : Subject} {table : Option String} {schema : Schema}
  {part : SearchPart} {occurrences : List (List Field × Field)}

/-- The condition has a `LIKE ?` for each value that is bound: as many as there are leaves, and no more than
    there are placeholders. -/
theorem likeMarks_text (key : PlainKey ctx.settings) (described : ctx.schemaOf subject = .ok schema)
    (ok : (compileSearch ctx term subject table).result = .ok part) (d : Dialect) (backslash : Bool) :
    likeMarks (lex backslash (part.text d)) = part.args.length := by
  have plain : ∀ p ∈ part.alternatives, p.Plain := by
    rcases compileSearch_eq_ok ok with ⟨_, rfl⟩ | ⟨_, other, _, searched⟩
    · simp
    · exact plain_searched key searched (fun f => List.mem_of_mem_filter) (by simp)
  have marked := SearchPart.marked d plain
  have covers := covers_compileSearch key described ok backslash d
  have leaves : part.args.length = (searchLeaves ctx term schema).length := by
    rw [SearchPart.args, covers.args, List.length_map]
  have least : _ ≤ likeMarks (lexemes backslash (part.tokens d)) := (covers.likes_tokens part.paths).length_le
  have most := likeMarks_le (lexemes backslash (part.tokens d))
  have tail := (List.tail_sublist (lexemes backslash (part.tokens d))).count_le (.symbol '?')
  have marks := marked.placeholders_eq backslash
  rw [SearchPart.text, lex_print marked.legible]
  unfold placeholders at most marks
  omega

theorem searchCovers {decls : List EntityDecl} (schemas : ctx.Over (.ofDecls decls))
    (described : ctx.schemaOf subject = .ok schema)
    (ok : (compileSearch ctx term subject table).result = .ok part)
    (order : Traverses ctx.schemaOf schema.searchableFields occurrences)
    (binds : Binds term part.alternatives (occurrences.map (·.2))) : SearchCovers ctx term schema part occurrences := by
  have args : part.args = occurrences.map fun o => leafPattern term o.2 := by
    rw [SearchPart.args, binds.args, List.map_map]
    rfl
  refine ⟨order, fun trail f => order.mem_iff, ?_, ?_, ?_, ?_⟩
  case refine_1 =>
    exact order.nodup (nodup_searchableFields schemas) (nodup_searchableFields schemas described)
  case refine_2 =>
    rw [args, List.forall₂_map_right_iff, List.forall₂_same]
    intro o member
    have root := schemas.describe_entity described
    rw [schemas] at root
    obtain ⟨name, owner, known, searchable⟩ :=
      (order.mem_iff.mp member).declared schemas fun f inside => ⟨_, _, root, inside⟩
    exact filled_leafPattern known searchable
  case refine_3 =>
    intro key backslash
    rw [likeMarks_text key described ok, args, List.length_map]
  case refine_4 =>
    have same := binds.isEmpty_eq
    rw [SearchPart.text_eq_empty_iff, ← List.isEmpty_iff, ← same, List.isEmpty_iff, List.map_eq_nil_iff]

end Whole

/-- A search covers the columns with a search pattern that relations with one lead to: depth first, each
    occurrence once, with a value and a `LIKE ?` for it. Under other joins, another language, dialect or table
    the same values are bound, and where the dialect is a known one the search succeeds as well. -/
theorem compileSearch_covers {ctx : Context} {decls : List EntityDecl} {term : String} {subject : Subject}
    {table : Option String} {schema : Schema} {part : SearchPart} (schemas : ctx.Over (.ofDecls decls))
    (asked : term ≠ "") (described : ctx.schemaOf subject = .ok schema)
    (ok : (compileSearch ctx term subject table).result = .ok part) :
    (∃ occurrences, SearchCovers ctx term schema part occurrences) ∧
      ∀ registry language dialect table',
        (∀ part', (compileSearch (ctx.under registry language dialect) term subject table').result =
            .ok part' → part'.args = part.args) ∧
        (NamesColumns ctx.settings → (∃ n : Nat, ctx.maxDepth = .int n) →
          (∃ d, Dialect.resolve ctx.settings ctx.dialect = .ok d) →
          (∃ d, Dialect.resolve ctx.settings dialect = .ok d) →
          ∃ part', (compileSearch (ctx.under registry language dialect) term subject table').result =
            .ok part' ∧ part'.args = part.args) := by
  obtain ⟨occurrences, order, binds⟩ := binds_compileSearch asked described ok
  refine ⟨⟨occurrences, searchCovers schemas described ok order binds⟩, ?_⟩
  intro registry language dialect table'
  have same : ∀ part', (compileSearch (ctx.under registry language dialect) term subject table').result =
      .ok part' → part'.args = part.args := by
    intro part' ok'
    have described' : (ctx.under registry language dialect).schemaOf subject = .ok schema := described
    obtain ⟨occurrences', order', binds'⟩ := binds_compileSearch asked described' ok'
    rw [order.unique order'] at binds
    exact binds'.args.trans binds.args.symm
  refine ⟨same, ?_⟩
  intro names limited known known'
  obtain ⟨n, limit⟩ := limited
  obtain ⟨d, known⟩ := known
  obtain ⟨d', known'⟩ := known'
  -- Whether a search succeeds hangs on the walks alone, which know of no joins, language or dialect.
  have walks := (decides_compileSearch schemas names known limit asked described table).2.mp ⟨part, ok⟩
  have schemas' : (ctx.under registry language dialect).Over (.ofDecls decls) := schemas
  obtain ⟨part', ok'⟩ := (decides_compileSearch schemas' names known' limit asked described table').2.mpr walks
  exact ⟨part', ok', same part' ok'⟩

namespace Books

/-- Shelves are joined to the volumes on them. -/
def shelfJoin : Join.Registry :=
  { entries := [("Shelf",
      { type := .oneToOne, table := "shelf", joinType := .left
        keys := { localKey := some "ShelfID", foreignKey := some "ID" } })] }

end Books

/-- A volume is found by the label of its shelf, the name of its room and its title, joined or not. The star
    of the term stays. -/
theorem compileSearch_covers_shelves :
    ∃ schema part occurrences, SearchCovers (Books.shelving 2) "a*b" schema part occurrences ∧
      occurrences.length = 3 ∧ part.args = [.str "%a*b%", .str "a*b%", .str "%a*b"] ∧
      ∃ part', (compileSearch ((Books.shelving 2).under (some Books.shelfJoin) (some "de") (some "mysql"))
        "a*b" (.entity "Volume") (some "v")).result = .ok part' ∧ part'.args = part.args := by
  obtain ⟨schema, described⟩ : ∃ schema, (Books.shelving 2).schemaOf (.entity "Volume") = .ok schema :=
    ⟨_, rfl⟩
  obtain ⟨part, ok, args⟩ : ∃ part, (compileSearch (Books.shelving 2) "a*b" (.entity "Volume") none).result =
      .ok part ∧ part.args = [.str "%a*b%", .str "a*b%", .str "%a*b"] := ⟨_, rfl, rfl⟩
  have names : NamesColumns {} := ⟨⟨_, rfl⟩, ⟨_, rfl⟩, ⟨_, rfl⟩⟩
  obtain ⟨⟨occurrences, covers⟩, others⟩ := compileSearch_covers (fun _ => rfl) (by decide) described ok
  have length := covers.args.length_eq
  rw [args] at length
  exact ⟨schema, part, occurrences, covers, length, args,
    (others (some Books.shelfJoin) (some "de") (some "mysql") (some "v")).2 names ⟨2, rfl⟩ ⟨_, rfl⟩ ⟨_, rfl⟩⟩

end RowQuery.Compile
