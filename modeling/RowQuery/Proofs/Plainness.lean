import RowQuery.Proofs.Compilation
import RowQuery.Proofs.Legibility

/-!
# What compiled queries name

Every column of a compiled condition is quoted, but for the primary key in the relations through a
pivot table. So all parts of a compiled query are plain if the primary key is an identifier.
-/

namespace RowQuery.Compile

open RowQuery.Schema RowQuery.Sql RowQuery.Join

/-- Settings with a primary key that can be written without quotes. -/
def PlainKey (settings : Settings) : Prop :=
  ∃ key, settings.primaryKey = .text key ∧ isIdentifier key = true

/-! ## Conditions -/

/-- An expression of a field reads the field's column. -/
theorem source_expr {tr : Localizer} {f : Field} {table : Option String} {language : Detail}
    {e : Expr} (ok : tr.expr f table language = .ok e) :
    e.source = { table, name := f.column } := by
  simp only [Localizer.expr, Localizer.column, bind_eq_ok] at ok
  obtain ⟨c, ⟨_, _, same⟩, ok⟩ := ok
  cases same
  split at ok
  · simp only [bind_eq_ok] at ok
    obtain ⟨code, _, ok⟩ := ok
    cases ok
    rfl
  · cases ok
    rfl

theorem source_innerExpr {ctx : Context} {entity path : String} {f : Field} {table : Option String}
    {rest : List String} {e : Expr} (ok : innerExpr ctx entity path f table rest = .ok e) :
    e.source = { table, name := f.column } := by
  simp only [innerExpr, Context.column, bind_eq_ok] at ok
  obtain ⟨c, ⟨_, _, same⟩, ok⟩ := ok
  cases same
  split at ok
  · cases ok
    rfl
  · split at ok
    · cases ok
      rfl
    · cases ok

/-- The condition of a filter on a column names no other. -/
theorem columns_leafCondition {ctx : Context} {flt : Filter} {f : Field} {table : Option String}
    {p : Predicate} (leaf : LeafCondition ctx flt f table p) :
    ∀ c ∈ p.columns, c = { table, name := f.column } := by
  cases leaf with
  | tested single expr test => simp [Predicate.columns, source_expr expr]
  | isNull | isNotNull | like | equal | notEqual => simp [Predicate.columns, Expr.source]
  | oneOf across list values =>
    intro c member
    simp only [Predicate.columns, columns_anyOf, List.flatMap_cons, List.flatMap_map,
      List.mem_append, List.mem_flatMap, List.mem_singleton] at member
    rcases member with same | ⟨v, _, same⟩ <;> exact same

/-- The frames of a relation name quoted columns, and the primary key. -/
theorem plain_relationFrames {settings : Settings} {dialect : Option String} {f : Field}
    {outer related : String} {frames : List Frame} (key : PlainKey settings)
    (ok : relationFrames settings dialect f outer related = .ok frames) :
    ∀ frame ∈ frames, ∀ c ∈ frame.columns, c.Plain := by
  obtain ⟨name, isText, identifier⟩ := key
  cases framed_of_relationFrames ok with
  | direct => simp [directFrames, Frame.columns, Column.of, Column.Plain]
  | pivot => simp [pivotFrames, Frame.columns, Column.Plain, isText, Detail.plain, identifier]
  | polymorphic => simp [polymorphicFrames, Frame.columns, Column.of, Column.Plain, Predicate.columns]

/-- The condition of a filter is plain. -/
theorem plain_narrowed {ctx : Context} {flt : Filter} {rest : List String} {head : String}
    {site : Site} {n : Narrowing} (key : PlainKey ctx.settings)
    (walk : Narrowed ctx flt rest head site n) : n.condition.Plain := by
  induction walk with
  | leaf shallow found column condition =>
    intro c member
    rw [columns_leafCondition (leafCondition_eq_ok condition) c member]
    exact Column.plain_of_quoted rfl
  | inner shallow found column expr test =>
    intro c member
    simp only [Predicate.columns, List.mem_singleton] at member
    rw [member, source_innerExpr expr]
    exact Column.plain_of_quoted rfl
  | joined shallow found relation target registered rest ih => exact ih
  | nested shallow found relation target unregistered rest framed ih =>
    intro c member
    rcases mem_columns_nest.mp member with inside | ⟨frame, inFrames, inFrame⟩
    · exact ih c inside
    · exact plain_relationFrames key framed frame inFrames c inFrame

/-- The alternatives of a search are plain. -/
theorem plain_searched {ctx : Context} {term : String} {budget : Nat} {site : SearchSite}
    {fields : List Field} {found last : SearchPart} (key : PlainKey ctx.settings)
    (search : Searched ctx term budget site fields found last)
    (known : ∀ f ∈ fields, f ∈ site.schema.fields)
    (before : ∀ p ∈ found.alternatives, p.Plain) : ∀ p ∈ last.alternatives, p.Plain := by
  refine search.forall_alternatives (P := fun _ p => p.Plain) ?_ (fun _ _ _ plain => plain) ?_ known
    before
  · intro site f lhs pattern expr c member
    simp only [Predicate.columns, List.mem_singleton] at member
    rw [member, source_expr expr]
    exact Column.plain_of_quoted rfl
  · intro site f related frames p ps _ _ framed behind c member
    rcases mem_columns_nest.mp member with inside | ⟨frame, inFrames, inFrame⟩
    · have columns : (alternativesCondition f p ps).columns = (p :: ps).flatMap Predicate.columns := by
        unfold alternativesCondition
        split <;> simp only [Predicate.columns, columns_anyOf]
      rw [columns] at inside
      obtain ⟨q, member, inside⟩ := List.mem_flatMap.mp inside
      exact behind q member c inside
    · exact plain_relationFrames key framed frame inFrames c inFrame

/-! ## Joins, orders and selections -/

/-- A plan is joined on quoted columns. -/
theorem plain_clause {settings : Settings} {base : String} {config : Config} {clause : JoinClause}
    {discriminator : Option Discriminator}
    (ok : Registry.clause settings base config = .ok (clause, discriminator)) :
    (∀ j ∈ clause, j.Plain) ∧ ∀ x ∈ discriminator, x.column.Plain := by
  cases clause_eq_ok.mp ok with
  | direct => exact ⟨by simp [JoinStep.plain_of], by simp⟩
  | pivot => exact ⟨by simp [JoinStep.plain_of], by simp⟩
  | polymorphic => exact ⟨by simp [JoinStep.plain_of], by simp [Column.plain_of]⟩

theorem plain_inline {clause : JoinClause} {discriminator : Option Discriminator}
    (steps : ∀ j ∈ clause, j.Plain) (type : ∀ x ∈ discriminator, x.column.Plain) :
    ∀ j ∈ Registry.inline clause discriminator, j.Plain := by
  cases discriminator with
  | none => exact steps
  | some x =>
    intro j member
    rcases List.mem_append.mp member with before | last
    · exact steps j ((List.dropLast_sublist clause).subset before)
    · simp only [Option.mem_toList, Option.map_eq_some_iff] at last
      obtain ⟨k, isLast, rfl⟩ := last
      have plain := steps k (List.mem_of_getLast? isLast)
      exact ⟨plain.left, plain.right, by simpa using type⟩

/-- The joins of a configuration name quoted columns. -/
theorem plain_join {settings : Settings} {r : Registry} {base : String} {config : Config}
    {inlined : Bool} {clause : JoinClause} {discriminator : Option Discriminator}
    (ok : r.join settings base config inlined = .ok (clause, discriminator)) :
    (∀ j ∈ clause, j.Plain) ∧ ∀ x ∈ discriminator, x.column.Plain := by
  simp only [Registry.join, bind_eq_ok] at ok
  obtain ⟨_, _, _, _, ⟨steps, type⟩, made, ok⟩ := ok
  obtain ⟨plainSteps, plainType⟩ := plain_clause made
  cases inlined with
  | true =>
    cases ok
    exact ⟨plain_inline plainSteps plainType, by simp⟩
  | false =>
    cases ok
    exact ⟨plainSteps, plainType⟩

theorem plain_joins {settings : Settings} {r : Registry} {base : String} {paths : List String}
    {inlined : Bool} {clauses : List JoinClause} {discriminators : List Discriminator}
    (ok : r.joins settings base paths inlined = .ok (clauses, discriminators)) :
    (∀ clause ∈ clauses, ∀ j ∈ clause, j.Plain) ∧ ∀ x ∈ discriminators, x.column.Plain := by
  simp only [Registry.joins, bind_eq_ok, mapM_eq_ok] at ok
  obtain ⟨found, each, ok⟩ := ok
  cases ok
  have plain : ∀ x ∈ found, (∀ j ∈ x.1, j.Plain) ∧ ∀ y ∈ x.2, y.column.Plain := by
    intro x member
    obtain ⟨path, _, config, _, joined⟩ := exists_left_of_forall₂ each member
    exact plain_join joined
  constructor
  · intro clause member
    simp only [Text.mem_mergeNew, List.not_mem_nil, false_or, List.mem_map] at member
    obtain ⟨x, inFound, rfl⟩ := member
    exact (plain x inFound).1
  · intro y member
    simp only [Text.mem_mergeNew, List.not_mem_nil, false_or, List.mem_filterMap] at member
    obtain ⟨x, inFound, same⟩ := member
    exact (plain x inFound).2 y same

theorem plain_requestJoins {ctx : Context} {table : String} {paths preloads : List String}
    {joins : List JoinClause} {discriminators : List Discriminator}
    (ok : requestJoins ctx table paths preloads = .ok (joins, discriminators)) :
    (∀ clause ∈ joins, ∀ j ∈ clause, j.Plain) ∧ ∀ x ∈ discriminators, x.column.Plain := by
  unfold requestJoins at ok
  split at ok
  · cases ok
    simp
  · simp only [bind_eq_ok] at ok
    obtain ⟨⟨needed, types⟩, joined, ⟨loaded, _⟩, preloaded, ok⟩ := ok
    cases ok
    obtain ⟨plainNeeded, plainTypes⟩ := plain_joins joined
    refine ⟨?_, plainTypes⟩
    intro clause member
    rcases Text.mem_mergeNew.mp member with inNeeded | inLoaded
    · exact plainNeeded clause inNeeded
    · exact (plain_joins preloaded).1 clause inLoaded

/-- The key of a sort reads a quoted column, and its joins are on quoted columns. -/
theorem plain_keyed {ctx : Context} {mode : SortMode} {name : String} {rest : List String}
    {head : String} {site : SortSite} {e : Expr} {joins : List JoinClause}
    (walk : Keyed ctx mode name rest head site e joins) :
    e.source.Plain ∧ ∀ clause ∈ joins, ∀ j ∈ clause, j.Plain := by
  induction walk with
  | leaf shallow found column expr =>
    rw [source_expr expr]
    exact ⟨Column.plain_of_quoted rfl, by simp⟩
  | inner shallow found column expr =>
    rw [source_innerExpr expr]
    exact ⟨Column.plain_of_quoted rfl, by simp⟩
  | joined shallow found relation target configured clause rest ih =>
    refine ⟨ih.1, ?_⟩
    intro other member
    rcases Text.mem_mergeNew.mp member with own | behind
    · unfold sortClause at clause
      split at clause
      · cases clause
        cases own
      · obtain ⟨⟨made, type⟩, joined, same⟩ := map_eq_ok.mp clause
        subst same
        cases List.mem_singleton.mp own
        exact (plain_join joined).1
    · exact ih.2 other behind

/-- Every character is a separator or in one of the parts between them. -/
theorem mem_splitChars (sep : Char) {c : Char} {cs : List Char} (member : c ∈ cs) :
    c = sep ∨ ∃ part ∈ (Text.splitChars sep cs).1 :: (Text.splitChars sep cs).2, c ∈ part := by
  induction cs with
  | nil => cases member
  | cons d ds ih =>
    simp only [Text.splitChars]
    by_cases separator : d = sep
    · rcases List.mem_cons.mp member with rfl | later
      · exact .inl separator
      · rcases ih later with same | ⟨part, inParts, inside⟩
        · exact .inl same
        · exact .inr ⟨part, by simp [separator, inParts], inside⟩
    · simp only [separator, if_false]
      rcases List.mem_cons.mp member with rfl | later
      · exact .inr ⟨_, List.mem_cons_self, by simp⟩
      · rcases ih later with same | ⟨part, inParts, inside⟩
        · exact .inl same
        · rcases List.mem_cons.mp inParts with rfl | inParts
          · exact .inr ⟨_, List.mem_cons_self, by simp [inside]⟩
          · exact .inr ⟨part, by simp [inParts], inside⟩

theorem mem_dropFinalNewline {c : Char} {cs : List Char} (member : c ∈ cs) :
    c = '\n' ∨ c ∈ Filter.dropFinalNewline cs := by
  unfold Filter.dropFinalNewline
  split
  case isTrue final =>
    have whole : cs = cs.dropLast ++ ['\n'] := (List.dropLast_append_getLast? _ final).symm
    rw [whole] at member
    rcases List.mem_append.mp member with before | last
    · exact .inr before
    · exact .inl (List.mem_singleton.mp last)
  case isFalse => exact .inr member

/-- A plain dotted name has word characters, dots, and maybe a newline at its end. -/
theorem mem_of_isPlainName {s : String} (plain : isPlainName s = true) :
    ∀ c ∈ s.toList, isWordChar c = true ∨ c = '.' ∨ c = '\n' := by
  intro c member
  rcases mem_dropFinalNewline member with newline | inside
  · exact .inr (.inr newline)
  · rcases mem_splitChars '.' inside with dot | ⟨part, inParts, inPart⟩
    · exact .inr (.inl dot)
    · left
      simp only [isPlainName, List.all_eq_true] at plain
      have good := plain part inParts
      cases part with
      | nil => cases inPart
      | cons d ds =>
        simp only [Bool.and_eq_true, Bool.or_eq_true, List.all_eq_true] at good
        rcases List.mem_cons.mp inPart with rfl | later
        · simp only [isWordChar, Char.isAlphanum, Bool.or_eq_true]
          rcases good.1 with alpha | underscore
          · exact .inl (.inl alpha)
          · exact .inr underscore
        · simpa [isWordChar] using good.2 c later

/-- A plain dotted name has neither quotes nor placeholders. -/
theorem regular_of_isPlainName {s : String} (plain : isPlainName s = true) :
    (Token.word s).regular = true := by
  simp only [Token.regular, List.all_eq_true, Bool.and_eq_true, Bool.not_eq_true', bne_iff_ne]
  intro c member
  rcases mem_of_isPlainName plain c member with word | rfl | rfl
  · exact unmarked_of_isWordChar word
  · decide
  · decide

/-- A sort is by a quoted column or by a plain name, with joins on quoted columns. -/
theorem plain_sortTerm {ctx : Context} {mode : SortMode} {schema : Schema} {table : String}
    {sort : Sorting} {x : OrderTerm × List JoinClause}
    (ok : (sortTerm ctx mode schema table sort).result = .ok x) :
    x.1.key.Plain ∧ ∀ clause ∈ x.2, ∀ j ∈ clause, j.Plain := by
  rcases sortTerm_eq_ok ok with ⟨e, walk, key⟩ | ⟨_, plain, _, rfl⟩
  · rw [key]
    exact plain_keyed walk
  · exact ⟨regular_of_isPlainName plain, by simp⟩

theorem plain_selectList {tr : Localizer} {schema : Schema} {names : List String}
    {table : Option String} {language : Detail} {items : List SelectItem}
    (ok : tr.selectList schema names table language = .ok items) :
    ∀ s ∈ items, s.expr.source.Plain := by
  obtain ⟨fields, _, each⟩ := selectList_eq_ok ok
  intro s member
  obtain ⟨f, _, expr⟩ := exists_left_of_forall₂ each member
  rw [source_expr expr]
  exact Column.plain_of_quoted rfl

/-- All parts of a compiled query are plain. -/
theorem plain_compileQuery {ctx : Context} {strict : Bool} {q : Query} {subject : Subject}
    {table : Option String} {c : Compiled} (key : PlainKey ctx.settings)
    (ok : (compileQuery ctx strict q subject table).result = .ok c) : c.Plain := by
  obtain ⟨s, yields⟩ := compileQuery_eq_ok ok
  obtain ⟨plainJoins, plainTypes⟩ := plain_requestJoins yields.joins
  obtain ⟨_, found, _, sorted, sortsSame⟩ := compileSorts_eq_ok yields.sorts
  have plainSorts : ∀ x ∈ found, x.1.key.Plain ∧ ∀ clause ∈ x.2, ∀ j ∈ clause, j.Plain := by
    intro x member
    obtain ⟨sort, _, ok⟩ := exists_left_of_forall₂ sorted member
    exact plain_sortTerm ok
  have plainFilters := yields.forall_filters (P := Predicate.Plain) (plain_narrowed key)
  have plainSearch := yields.forall_search (P := Predicate.Plain) fun searched =>
    plain_searched key searched (fun f => List.mem_of_mem_filter) (by simp)
  rw [yields.compiled] at plainFilters plainSearch ⊢
  constructor
  case filters => exact plainFilters
  case search => exact plainSearch
  case discriminators =>
    intro x member c inside
    simp only [Discriminator.predicate, Predicate.columns, List.mem_singleton] at inside
    rw [inside]
    exact plainTypes x member
  case order =>
    intro t member
    simp only [sortsSame, List.mem_map] at member
    obtain ⟨x, inFound, rfl⟩ := member
    exact (plainSorts x inFound).1
  case select =>
    have selected := yields.select
    split at selected
    · rw [← Except.ok.inj selected]
      simp
    · exact plain_selectList selected
  case joins =>
    intro clause member
    rcases Text.mem_mergeNew.mp member with needed | sorted
    · exact plainJoins clause needed
    · simp only [sortsSame, Text.mem_mergeNew, List.not_mem_nil, false_or,
        List.mem_flatMap] at sorted
      obtain ⟨x, inFound, inside⟩ := sorted
      exact (plainSorts x inFound).2 clause inside

end RowQuery.Compile
