import RowQuery.Proofs.Plainness

/-!
# Placeholders and bound values

The values of a statement stand in the order of its placeholders. Each filter has a segment of the
condition with a placeholder for each value that it binds; the search has one `LIKE ?` for each
searchable leaf, in the order in which a walk through the relations comes to them; discriminators bind
nothing, and the page comes last.
-/

namespace RowQuery

open RowQuery.Sql

/-! ## The values of a filter -/

/-- How many values a filter binds: none where it asks for null, one for each raw value else. -/
def Filter.valueCount (flt : Filter) : Nat := if flt.isNullTest then 0 else flt.rawValues.length

theorem Filter.valueCount_of_isNullWord {flt : Filter}
    (operation : flt.operation = .equal ∨ flt.operation = .notEqual)
    (word : isNullWord flt.value = true) : flt.valueCount = 0 := by
  rw [valueCount, if_pos (isNullTest_of_isNullWord operation word)]

theorem Filter.valueCount_of_value {flt : Filter} (value : isNullWord flt.value = false) :
    flt.valueCount = flt.rawValues.length := by
  simp [valueCount, isNullTest, value]

theorem Filter.valueCount_of_isList {flt : Filter} (list : flt.operation.isList = true) :
    flt.valueCount = flt.rawValues.length := by
  simp [valueCount, isNullTest_of_isList list]

/-- A test binds as many values as its filter has. -/
theorem Filter.length_args_of_test {flt : Filter} {kind : Option ColumnKind} {t : Test}
    (ok : flt.test kind = .ok t) : t.args.length = flt.valueCount := by
  cases tested_of_test ok with
  | isNull operation word => exact (valueCount_of_isNullWord (.inl operation) word).symm
  | isNotNull operation word => exact (valueCount_of_isNullWord (.inr operation) word).symm
  | oneOf list read =>
    rw [valueCount_of_isList list]
    exact read.length_eq.symm
  | compare bound single read => simp [Test.args, valueCount, bound, rawValues_of_single single]

namespace Compile

open RowQuery.Schema

theorem argsOf_append (ps qs : List Predicate) : argsOf (ps ++ qs) = argsOf ps ++ argsOf qs :=
  List.flatMap_append

/-- A condition on a column binds as many values as its filter has. -/
theorem length_args_leafCondition {ctx : Context} {flt : Filter} {f : Field} {table : Option String}
    {p : Predicate} (leaf : LeafCondition ctx flt f table p) : p.args.length = flt.valueCount := by
  have one : flt.operation.isList = false → flt.rawValues.length = 1 :=
    fun single => congrArg List.length (Filter.rawValues_of_single single)
  cases leaf with
  | tested _ _ test => exact Filter.length_args_of_test test
  | isNull _ operation word => exact (Filter.valueCount_of_isNullWord (.inl operation) word).symm
  | isNotNull _ operation word => exact (Filter.valueCount_of_isNullWord (.inr operation) word).symm
  | like _ operation =>
    have bound : flt.isNullTest = false := by simp [Filter.isNullTest, operation]
    simp [Predicate.args, Filter.valueCount, bound, one (by rw [operation]; rfl)]
  | equal _ operation value | notEqual _ operation value =>
    rw [Filter.valueCount_of_value value, one (by rw [operation]; rfl)]
    rfl
  | oneOf _ list values =>
    rw [Filter.valueCount_of_isList list, values]
    simp only [Predicate.args, args_anyOf, argsOf, List.flatMap_cons, List.flatMap_map]
    simp

/-- The frames of a relation bind nothing. -/
theorem args_relationFrames {settings : Settings} {dialect : Option String} {f : Field}
    {outer related : String} {frames : List Frame}
    (ok : relationFrames settings dialect f outer related = .ok frames) :
    ∀ frame ∈ frames, frame.args = [] := by
  cases framed_of_relationFrames ok with
  | direct => simp [directFrames, Frame.args]
  | pivot => simp [pivotFrames, Frame.args]
  | polymorphic => simp [polymorphicFrames, Frame.args, Predicate.args]

/-- The condition of a filter binds as many values as the filter has, behind any relations. -/
theorem length_args_narrowed {ctx : Context} {flt : Filter} {rest : List String} {head : String}
    {site : Site} {n : Narrowing} (walk : Narrowed ctx flt rest head site n) :
    n.condition.args.length = flt.valueCount := by
  induction walk with
  | leaf shallow found column condition =>
    exact length_args_leafCondition (leafCondition_eq_ok condition)
  | inner shallow found column expr test => exact Filter.length_args_of_test test
  | joined shallow found relation target registered rest ih => exact ih
  | nested shallow found relation target unregistered rest framed ih =>
    rw [args_nest (args_relationFrames framed)]
    exact ih

/-! ## The leaves of a search -/

/-- The leaves that a search comes to from a field: the field itself if it is a column, and if it is a
    relation, those of the entity that it leads to. -/
def fieldLeaves (ctx : Context) : (budget : Nat) → Field → List Field
  | 0, f => if f.isRelation then [] else [f]
  | budget + 1, f =>
    if f.isRelation then
      match (ctx.related f).result with
      | .ok related => related.searchableFields.flatMap (fieldLeaves ctx budget)
      | .error _ => []
    else [f]

/-- The leaves that a search for a term comes to from an entity. -/
def searchLeaves (ctx : Context) (term : String) (schema : Schema) : List Field :=
  if term = "" then [] else schema.searchableFields.flatMap (fieldLeaves ctx (Depth.budget ctx.maxDepth))

/-- The value that is bound for a leaf. -/
def leafPattern (term : String) (f : Field) : Value := .str (fillPattern (f.search.getD "") term)

theorem fieldLeaves_column {ctx : Context} {budget : Nat} {f : Field} (column : f.isRelation = false) :
    fieldLeaves ctx budget f = [f] := by
  cases budget <;> simp [fieldLeaves, column]

theorem fieldLeaves_relation {ctx : Context} {budget : Nat} {f : Field} {related : Schema}
    (relation : f.isRelation = true) (target : (ctx.related f).result = .ok related) :
    fieldLeaves ctx (budget + 1) f = related.searchableFields.flatMap (fieldLeaves ctx budget) := by
  simp [fieldLeaves, relation, target]

/-- Lexemes that hold one `LIKE ?` for each of some fields, from left to right and each behind an
    expression of the field's column, and no other placeholder. -/
inductive Likes (backslash : Bool) (d : Dialect) : List Lexeme → List Field → Prop where
  | rest {ls : List Lexeme} (free : placeholders ls = 0) : Likes backslash d ls []
  | leaf {before ls : List Lexeme} {e : Expr} {f : Field} {fs : List Field}
      (free : placeholders before = 0) (column : e.source.name = f.column)
      (later : Likes backslash d ls fs) :
      Likes backslash d
        (before ++ lex backslash (e.text d) ++ [.word "LIKE", .symbol '?'] ++ ls) (f :: fs)

namespace Likes

variable {backslash : Bool} {d : Dialect} {ls ms : List Lexeme} {fs gs : List Field}

theorem behind (likes : Likes backslash d ls fs) (free : placeholders ms = 0) :
    Likes backslash d (ms ++ ls) fs := by
  cases likes with
  | rest none => exact .rest (by rw [placeholders_append, free, none])
  | leaf none column later =>
    simp only [← List.append_assoc]
    exact .leaf (by rw [placeholders_append, free, none]) column later

theorem append (first : Likes backslash d ls fs) (second : Likes backslash d ms gs) :
    Likes backslash d (ls ++ ms) (fs ++ gs) := by
  induction first with
  | rest free => exact second.behind free
  | leaf free column later ih =>
    rw [List.append_assoc, List.cons_append]
    exact .leaf free column ih

theorem before (likes : Likes backslash d ls fs) (free : placeholders ms = 0) :
    Likes backslash d (ls ++ ms) fs := by
  simpa using likes.append (.rest free)

/-- The relations around a condition add no placeholder. -/
theorem nest {frames : List Frame} {p : Predicate} (plain : ∀ frame ∈ frames, ∀ c ∈ frame.columns, c.Plain)
    (unbound : ∀ frame ∈ frames, frame.args = [])
    (likes : Likes backslash d (lexemes backslash (p.tokens d)) fs) :
    Likes backslash d (lexemes backslash ((Frame.nest frames p).tokens d)) fs := by
  induction frames with
  | nil => exact likes
  | cons frame frames ih =>
    have rest := ih (fun other member => plain other (by simp [member]))
      (fun other member => unbound other (by simp [member]))
    have around : Marked (frame.fillTokens d []) 0 :=
      Frame.marked d (plain frame (by simp)) (unbound frame (by simp)) ⟨trivial, rfl⟩
    have free := around.placeholders_eq backslash
    rw [Frame.fillTokens_eq, List.append_nil, lexemes_append, placeholders_append] at free
    rw [Frame.nest_cons, Frame.tokens_fill, Frame.fillTokens_eq, lexemes_append, lexemes_append]
    exact (rest.behind (by omega)).before (by omega)

end Likes

/-- Alternatives that bind one value for each of some leaves, and at least one value each. -/
structure Binds (term : String) (ps : List Predicate) (leaves : List Field) : Prop where
  args : argsOf ps = leaves.map (leafPattern term)
  bound : ∀ p ∈ ps, p.args ≠ []

namespace Binds

variable {term : String} {ps qs : List Predicate} {leaves others : List Field}

theorem none : Binds term [] [] := ⟨rfl, by simp⟩

theorem column (lhs : Expr) (f : Field) :
    Binds term [.test lhs (.compare .like (leafPattern term f))] [f] :=
  ⟨rfl, by simp [Predicate.args, Test.args]⟩

theorem append (first : Binds term ps leaves) (second : Binds term qs others) :
    Binds term (ps ++ qs) (leaves ++ others) := by
  refine ⟨by rw [argsOf_append, first.args, second.args, List.map_append], ?_⟩
  intro p member
  rcases List.mem_append.mp member with old | new
  · exact first.bound p old
  · exact second.bound p new

/-- The alternatives behind a relation become one, which binds the same values. -/
theorem nested {frames : List Frame} {p : Predicate} (f : Field)
    (unbound : ∀ frame ∈ frames, frame.args = []) (behind : Binds term (p :: ps) leaves) :
    Binds term [Frame.nest frames (alternativesCondition f p ps)] leaves := by
  have args : (Frame.nest frames (alternativesCondition f p ps)).args = argsOf (p :: ps) := by
    rw [args_nest unbound]
    unfold alternativesCondition
    split <;> simp only [Predicate.args, args_anyOf]
  refine ⟨?_, ?_⟩
  · rw [← behind.args, ← args]
    simp [argsOf]
  · intro q member
    cases List.mem_singleton.mp member
    rw [args]
    simp [argsOf, behind.bound p]

theorem isEmpty_eq (binds : Binds term ps leaves) : leaves.isEmpty = ps.isEmpty := by
  have args := binds.args
  cases ps with
  | nil => rw [List.map_eq_nil_iff.mp args.symm]; rfl
  | cons p ps =>
    cases leaves with
    | nil =>
      have unbound : p.args = [] := by simp_all [argsOf]
      exact absurd unbound (binds.bound p (by simp))
    | cons f fs => rfl

end Binds

/-- Alternatives that look for a term in some leaves: one `LIKE ?` and one value for each of them. -/
structure Covers (backslash : Bool) (d : Dialect) (term : String) (ps : List Predicate)
    (leaves : List Field) : Prop where
  likes : Likes backslash d (lexemes backslash (connectedTokens d "OR" ps)) leaves
  args : argsOf ps = leaves.map (leafPattern term)
  bound : ∀ p ∈ ps, p.args ≠ []

namespace Covers

variable {backslash : Bool} {d : Dialect} {term : String} {ps qs : List Predicate}
  {leaves others : List Field}

theorem binds (covers : Covers backslash d term ps leaves) : Binds term ps leaves := ⟨covers.args, covers.bound⟩

theorem none : Covers backslash d term [] [] := ⟨.rest rfl, rfl, by simp⟩

theorem append (first : Covers backslash d term ps leaves)
    (second : Covers backslash d term qs others) :
    Covers backslash d term (ps ++ qs) (leaves ++ others) := by
  have binds := first.binds.append second.binds
  refine ⟨?_, binds.args, binds.bound⟩
  cases ps with
  | nil =>
    cases List.map_eq_nil_iff.mp first.args.symm
    exact second.likes
  | cons p ps =>
    cases qs with
    | nil =>
      cases List.map_eq_nil_iff.mp second.args.symm
      simpa using first.likes
    | cons q qs =>
      have separated : placeholders [.word "OR"] = 0 := rfl
      have some : ∀ (p : Predicate) (ps : List Predicate), (p :: ps).map (·.tokens d) ≠ [] := by simp
      rw [connectedTokens, List.map_append, joined_append _ (some p ps) (some q qs), lexemes_append,
        lexemes_append]
      exact (first.likes.before separated).append second.likes

/-- A column is looked at by itself. -/
theorem column (backslash : Bool) (d : Dialect) (term : String) {f : Field} {lhs : Expr}
    (source : lhs.source.name = f.column) (plain : lhs.source.Plain) :
    Covers backslash d term [.test lhs (.compare .like (leafPattern term f))] [f] := by
  refine ⟨?_, rfl, by simp [Predicate.args, Test.args]⟩
  have text : lex backslash (lhs.text d) = lexemes backslash (lhs.tokens d) :=
    lex_print (Expr.marked d plain).legible
  have likes : Likes backslash d ([] ++ lex backslash (lhs.text d) ++
      [.word "LIKE", .symbol '?'] ++ []) [f] := .leaf rfl source (.rest rfl)
  rw [text, List.nil_append, List.append_nil] at likes
  rw [connectedTokens, List.map_singleton, Token.joined, List.intercalate_singleton, Predicate.tokens,
    lexemes_append]
  exact likes

/-- The alternatives behind a relation become one, which looks at the same leaves. -/
theorem nested {frames : List Frame} (f : Field) {p : Predicate}
    (plain : ∀ frame ∈ frames, ∀ c ∈ frame.columns, c.Plain)
    (unbound : ∀ frame ∈ frames, frame.args = [])
    (behind : Covers backslash d term (p :: ps) leaves) :
    Covers backslash d term [Frame.nest frames (alternativesCondition f p ps)] leaves := by
  have binds := behind.binds.nested f unbound
  have likes : Likes backslash d (lexemes backslash ((alternativesCondition f p ps).tokens d)) leaves := by
    unfold alternativesCondition
    split
    · simp only [Predicate.tokens, Token.bracketedSpaced, lexemes_append, tokens_anyOf]
      exact (behind.likes.behind rfl).before rfl
    · rw [tokens_anyOf]
      exact behind.likes
  refine ⟨?_, binds.args, binds.bound⟩
  simpa [connectedTokens, Token.joined] using likes.nest plain unbound

theorem likes_tokens (covers : Covers backslash d term ps leaves) (paths : List String) :
    Likes backslash d (lexemes backslash (SearchPart.tokens d ⟨ps, paths⟩)) leaves := by
  unfold SearchPart.tokens
  split
  · simp only [Token.bracketed, lexemes_append]
    exact (covers.likes.behind rfl).before rfl
  · exact covers.likes

end Covers

/-- A search covers the leaves of the fields that it has gone through. -/
theorem covers_searched {ctx : Context} {term : String} {budget : Nat} {site : SearchSite}
    {fields : List Field} {found last : SearchPart} {backslash : Bool} {d : Dialect}
    {leaves : List Field} (key : PlainKey ctx.settings)
    (search : Searched ctx term budget site fields found last)
    (before : Covers backslash d term found.alternatives leaves) :
    Covers backslash d term last.alternatives (leaves ++ fields.flatMap (fieldLeaves ctx budget)) := by
  induction search generalizing leaves with
  | done => simpa using before
  | column plain searched rest ih =>
    obtain ⟨lhs, expr, rfl⟩ := searchColumn_eq_ok searched
    have source := source_expr expr
    have here := Covers.column backslash d term (show lhs.source.name = _ by rw [source])
      (by rw [source]; exact Column.plain_of_quoted rfl)
    simpa [fieldLeaves_column plain] using ih (before.append here)
  | joined relation target fresh registered behind rest ihBehind ih =>
    have here := ihBehind Covers.none
    rw [← alternatives_behindPath] at here
    simpa [fieldLeaves_relation relation target] using ih (before.append here)
  | barren relation target fresh unregistered behind rest ihBehind ih =>
    have here := ihBehind Covers.none
    simpa [fieldLeaves_relation relation target] using ih (before.append here)
  | nested relation target fresh unregistered behind framed rest ihBehind ih =>
    have last := ih (before.append ((ihBehind Covers.none).nested _ (plain_relationFrames key framed)
      (args_relationFrames framed)))
    simpa [fieldLeaves_relation relation target] using last

theorem covers_compileSearch {ctx : Context} {term : String} {subject : Subject}
    {table : Option String} {schema : Schema} {part : SearchPart} (key : PlainKey ctx.settings)
    (described : ctx.schemaOf subject = .ok schema)
    (ok : (compileSearch ctx term subject table).result = .ok part) (backslash : Bool) (d : Dialect) :
    Covers backslash d term part.alternatives (searchLeaves ctx term schema) := by
  rcases compileSearch_eq_ok ok with ⟨rfl, rfl⟩ | ⟨term, other, same, searched⟩
  · exact Covers.none
  · cases described.symm.trans same
    simpa [searchLeaves, term] using covers_searched key searched Covers.none

/-! ## Whole statements -/

/-- The clauses of a page: each a keyword with the value that is bound behind it. Where only an offset
    is asked for, the limit is the greatest one. -/
def pageClauses (q : Query) : List (String × Value) :=
  (if 0 < q.limit then [("LIMIT", .int q.limit)]
    else if 0 < q.offset then [("LIMIT", .int Compiled.noLimit)] else []) ++
  (if 0 < q.offset then [("OFFSET", .int q.offset)] else [])

theorem page_eq {c : Compiled} {q : Query} (limit : c.limit = q.limit) (offset : c.offset = q.offset)
    (backslash : Bool) :
    lexemes backslash c.pageTokens =
        (pageClauses q).flatMap (fun clause => [.word clause.1, .symbol '?']) ∧
      c.pageArgs = (pageClauses q).map (·.2) := by
  unfold Compiled.pageTokens Compiled.pageArgs pageClauses Compiled.isPaged
  rw [limit, offset]
  by_cases limited : 0 < q.limit <;> by_cases shifted : 0 < q.offset <;>
    simp +decide [limited, shifted, lexemes_spaced]

/-- How the condition of a compiled query falls into segments: one for each filter, as it is compiled
    by itself, then the search, then the discriminators. -/
structure ConditionAligned (ctx : Context) (q : Query) (subject : Subject) (backslash : Bool)
    (c : Compiled) (segments : List FilterPart) (search : List Lexeme) (leaves : List Field) : Prop where
  filters : List.Forall₂ (fun flt part =>
    (compileFilters ctx [flt] subject (some c.table)).result = .ok part ∧
      placeholders (lex backslash (part.text c.style)) = part.args.length ∧
      part.args.length = flt.valueCount) q.filters segments
  likes : Likes backslash c.style search leaves
  discriminators : ∀ x ∈ c.discriminators,
    placeholders (lex backslash (x.predicate.text c.joinStyle)) = 0
  text : lex backslash c.whereText = [Lexeme.word "AND"].intercalate (
    (if segments.isEmpty then [] else [[.symbol '('] ++
      [Lexeme.word "AND"].intercalate (segments.map fun part => lex backslash (part.text c.style)) ++
      [.symbol ')']]) ++
    (if leaves.isEmpty then [] else [search]) ++
    c.discriminators.map fun x => lex backslash (x.predicate.text c.joinStyle))
  args : c.args = segments.flatMap (·.args) ++ leaves.map (leafPattern q.term)

/-- What a filter is compiled to by itself. -/
def Narrowing.part (n : Narrowing) : FilterPart :=
  ⟨[n.condition], Text.mergeNew [] ([n].flatMap (·.paths))⟩

theorem Narrowing.args_part (n : Narrowing) : n.part.args = n.condition.args := by
  simp [part, FilterPart.args, argsOf]

theorem Narrowing.tokens_part (n : Narrowing) (d : Dialect) : n.part.tokens d = n.condition.tokens d := by
  simp [part, FilterPart.tokens, connectedTokens, Token.joined]

/-- The segment of a filter is read as the filter's condition. -/
theorem lex_part {n : Narrowing} (plain : n.condition.Plain) (backslash : Bool) (d : Dialect) :
    lex backslash (n.part.text d) = lexemes backslash (n.condition.tokens d) := by
  rw [FilterPart.text, Narrowing.tokens_part]
  exact lex_print (Predicate.marked d plain).legible

/-- A filter that is compiled among others is compiled to the same by itself, and has a placeholder for
    each of its values. -/
theorem segment_of_narrow {ctx : Context} {flt : Filter} {subject : Subject} {table : Option String}
    {schema : Schema} {n : Narrowing} (key : PlainKey ctx.settings)
    (described : ctx.schemaOf subject = .ok schema)
    (walk : (narrow ctx flt flt.path.rest flt.path.head
      (.root schema (rootTable schema table))).result = .ok n) (backslash : Bool) (d : Dialect) :
    (compileFilters ctx [flt] subject table).result = .ok n.part ∧
      placeholders (lex backslash (n.part.text d)) = n.part.args.length ∧
      n.part.args.length = flt.valueCount := by
  have plain := plain_narrowed key (narrowed_of_narrow walk)
  refine ⟨?_, ?_, ?_⟩
  · exact compileFilters_eq_ok.mpr ⟨schema, [n], described, .cons walk .nil, rfl⟩
  · rw [lex_part plain, (Predicate.marked d plain).placeholders_eq, Narrowing.args_part]
  · rw [Narrowing.args_part]
    exact length_args_narrowed (narrowed_of_narrow walk)

/-- The condition of a compiled query falls into the segments of its parts. -/
theorem conditionAligned_of_yield {ctx : Context} {strict : Bool} {q : Query} {subject : Subject}
    {table : Option String} {c : Compiled} {s : Stages} (key : PlainKey ctx.settings) (plain : c.Plain)
    (yields : s.Yield ctx strict q subject table c) (backslash : Bool) :
    ∃ segments search, ConditionAligned ctx q subject backslash c segments search
      (searchLeaves ctx q.term s.schema) := by
  obtain ⟨found, filters, walks⟩ := yields.walks
  obtain ⟨search, _⟩ := yields.searched
  have covers := covers_compileSearch key yields.schema yields.search backslash c.style
  rw [← search] at covers
  refine ⟨found.map Narrowing.part, lexemes backslash (SearchPart.tokens c.style ⟨c.search, []⟩),
    ?_, ?_, ?_, ?_, ?_⟩
  case refine_1 =>
    rw [← yields.root] at walks
    exact List.forall₂_map_right_iff.mpr
      (walks.imp fun flt n walk => segment_of_narrow key yields.schema walk backslash c.style)
  case refine_2 => exact covers.likes_tokens []
  case refine_3 =>
    intro x member
    have marked := Predicate.marked c.joinStyle (plain.discriminators x member)
    rw [Predicate.text, lex_print marked.legible, marked.placeholders_eq]
    rfl
  case refine_4 =>
    have segments : (found.map Narrowing.part).map (fun part => lex backslash (part.text c.style)) =
        (c.filters.map (·.tokens c.style)).map (lexemes backslash) := by
      rw [filters, List.map_map, List.map_map, List.map_map]
      apply List.map_congr_left
      intro n member
      exact lex_part (plain.filters _ (by rw [filters]; exact List.mem_map_of_mem member)) _ _
    have group : lexemes backslash (Token.bracketed (connectedTokens c.style "AND" c.filters)) =
        [.symbol '('] ++ [Lexeme.word "AND"].intercalate
          ((c.filters.map (·.tokens c.style)).map (lexemes backslash)) ++ [.symbol ')'] := by
      rw [lexemes_bracketed, connectedTokens, lexemes_joined (by decide)]
      rfl
    rw [Compiled.lex_where plain, covers.binds.isEmpty_eq, segments, Compiled.lex_discriminators plain, ← group,
      Compiled.conditionTokens, List.map_append, List.map_append]
    have none : (found.map Narrowing.part).isEmpty = c.filters.isEmpty := by simp [filters]
    rw [none]
    congr 3
    · split <;> rfl
    · split <;> rfl
  case refine_5 =>
    rw [Compiled.args, covers.args, filters]
    simp [argsOf, List.flatMap_map, Narrowing.args_part]

/-- The placeholders of a statement are those of its condition and of its page. -/
theorem lex_statement {c : Compiled} (plain : c.Plain) (backslash : Bool) :
    ∃ lead order, lex backslash (Token.print c.statementTokens) =
        lead ++ lex backslash c.whereText ++ order ++ lexemes backslash c.pageTokens ∧
      placeholders lead = 0 ∧ placeholders order = 0 ∧
      placeholders (lex backslash (Token.print c.statementTokens)) = (c.args ++ c.pageArgs).length := by
  have whole := (Compiled.marked_statement plain).placeholders_eq backslash
  have condition := (Compiled.marked_where plain).placeholders_eq backslash
  have page := (Compiled.marked_page (q := c) ⟨legible_nil, rfl⟩).placeholders_eq backslash
  rw [Compiled.whereText, lex_print (Compiled.marked_where plain).legible,
    lex_print (Compiled.marked_statement plain).legible]
  have split := congrArg (lexemes backslash) c.statementTokens_eq
  rw [lexemes_append, lexemes_append, lexemes_append] at split
  refine ⟨_, _, split, ?_⟩
  rw [split] at whole ⊢
  simp only [placeholders_append, List.length_append, List.nil_append, List.count_nil] at whole page ⊢
  omega

/-- The placeholders of the statement that counts rows are those of its condition. -/
theorem lex_count {c : Compiled} (plain : c.Plain) (key : String) (backslash : Bool) :
    ∃ lead, lex backslash (Token.print (c.countTokens key)) = lead ++ lex backslash c.whereText ∧
      placeholders lead = 0 ∧
      placeholders (lex backslash (Token.print (c.countTokens key))) = c.args.length := by
  have whole := (Compiled.marked_count plain key).placeholders_eq backslash
  have condition := (Compiled.marked_where plain).placeholders_eq backslash
  rw [Compiled.whereText, lex_print (Compiled.marked_where plain).legible,
    lex_print (Compiled.marked_count plain key).legible]
  obtain ⟨lead, split⟩ := c.countTokens_eq key
  rw [split, lexemes_append] at whole ⊢
  refine ⟨_, rfl, ?_⟩
  rw [placeholders_append] at whole ⊢
  omega

/-- The placeholders of a compiled query are aligned with its values. Its condition falls into one
    segment for each filter, which has a placeholder for each value that the filter binds, one `LIKE ?`
    for each searchable leaf, and the discriminators; the values stand in the same order. The statement
    binds the limit and the offset behind them where it has their clauses, and the statement that counts
    rows binds nothing else. -/
theorem compileQuery_aligned {ctx : Context} {strict : Bool} {q : Query} {subject : Subject}
    {table : Option String} {c : Compiled} {d : Dialect} (key : PlainKey ctx.settings)
    (dialect : Dialect.resolve ctx.settings ctx.dialect = .ok d)
    (ok : (compileQuery ctx strict q subject table).result = .ok c) (backslash : Bool) :
    (∃ schema segments search, ctx.schemaOf subject = .ok schema ∧
      ConditionAligned ctx q subject backslash c segments search (searchLeaves ctx q.term schema)) ∧
    (∃ sql lead order,
      c.statement ctx.settings = .ok (sql, c.args ++ (pageClauses q).map (·.2)) ∧
      lex backslash sql = lead ++ lex backslash c.whereText ++ order ++
        (pageClauses q).flatMap (fun clause => [.word clause.1, .symbol '?']) ∧
      placeholders lead = 0 ∧ placeholders order = 0 ∧
      placeholders (lex backslash sql) = (c.args ++ (pageClauses q).map (·.2)).length) ∧
    (∃ sql lead, c.count ctx.settings = .ok (sql, c.args) ∧
      lex backslash sql = lead ++ lex backslash c.whereText ∧ placeholders lead = 0 ∧
      placeholders (lex backslash sql) = c.args.length) := by
  have plain := plain_compileQuery key ok
  obtain ⟨s, yields⟩ := compileQuery_eq_ok ok
  have limit : c.limit = q.limit := by rw [yields.compiled]
  have offset : c.offset = q.offset := by rw [yields.compiled]
  have requested : c.requested = ctx.dialect := by rw [yields.compiled]
  obtain ⟨pageLexemes, pageValues⟩ := page_eq limit offset backslash
  refine ⟨?_, ?_, ?_⟩
  · obtain ⟨segments, search, aligned⟩ := conditionAligned_of_yield key plain yields backslash
    exact ⟨s.schema, segments, search, yields.schema, aligned⟩
  · obtain ⟨lead, order, split, free⟩ := lex_statement plain backslash
    rw [pageLexemes] at split
    rw [pageValues] at free
    refine ⟨_, lead, order, ?_, split, free⟩
    rw [Compiled.statement, requested, dialect, ← pageValues]
    rfl
  · obtain ⟨name, isText, _⟩ := key
    have counted : ∃ key, c.count ctx.settings = .ok (Token.print (c.countTokens key), c.args) := by
      rw [Compiled.count, requested, dialect, Settings.keyName, isText]
      cases c.joins.isEmpty with
      | true => exact ⟨"", rfl⟩
      | false => exact ⟨name, rfl⟩
    obtain ⟨countKey, counted⟩ := counted
    obtain ⟨lead, split, free⟩ := lex_count plain countKey backslash
    exact ⟨_, lead, counted, split, free⟩

/-- A search with filters behind relations, and an offset without a limit. -/
def Books.paged : Query :=
  { term := "x?", filters := [⟨"Tags.Label", .oneOf, "a|b"⟩, ⟨"Author.Name", .notEqual, "nil"⟩]
    offset := 5 }

theorem compileQuery_aligned_books :
    ∃ c, (compileQuery Books.context true Books.paged (.entity "Book") none).result = .ok c ∧
      (∃ segments search, ConditionAligned Books.context Books.paged (.entity "Book") true c segments
        search (searchLeaves Books.context "x?" Books.book)) ∧
      c.args = [.str "a", .str "b", .str "%x?%", .str "%x?%", .str "x?", .str "x?%", .str "x?"] ∧
      ∃ sql, c.statement Books.context.settings =
          .ok (sql, c.args ++ [.int Compiled.noLimit, .int 5]) ∧
        placeholders (lex true sql) = 9 := by
  have key : PlainKey Books.context.settings := ⟨"ID", rfl, by decide⟩
  have ok : (compileQuery Books.context true Books.paged (.entity "Book") none).result = .ok _ := rfl
  obtain ⟨⟨_, segments, search, described, aligned⟩, ⟨sql, _, _, stated, _, _, _, count⟩, _⟩ :=
    compileQuery_aligned key rfl ok true
  cases described
  exact ⟨_, ok, ⟨segments, search, aligned⟩, by decide +kernel, sql, stated,
    count.trans (by decide +kernel)⟩

end Compile

end RowQuery
