import RowQuery.Proofs.SortText

/-!
# What a statement selects

A query that names fields selects an expression for each of them that is a column, in the order of the names, and
nothing else. Relations are passed over. If all named fields are relations, no expression is left, which is
taken for a query that names no fields: the statement then selects everything of the table.
-/

namespace RowQuery.Sql

/-- The clauses that a statement selects, up to its `FROM`. -/
def selected (ls : List Lexeme) : List (List Lexeme) := clauses ((ls.drop 1).takeWhile (· != .word "FROM"))

/-- The clauses are found between the first word and the first `FROM`. -/
theorem selected_eq {pieces : List (List Lexeme)} (whole : ∀ ls ∈ pieces, Whole ls) (some : ∀ ls ∈ pieces, ls ≠ [])
    (noFrom : ∀ ls ∈ pieces, .word "FROM" ∉ ls) (rest : List Lexeme) :
    selected (.word "SELECT" :: ([Lexeme.symbol ','].intercalate pieces ++ .word "FROM" :: rest)) = pieces := by
  have plain : ∀ l ∈ [Lexeme.symbol ','].intercalate pieces, (l != .word "FROM") = true := by
    intro l member
    rcases Text.mem_of_mem_intercalate member with comma | ⟨piece, inPieces, inside⟩
    · rw [List.mem_singleton.mp comma]
      rfl
    · rw [bne_iff_ne]
      rintro rfl
      exact noFrom piece inPieces inside
  rw [selected, List.drop_one, List.tail_cons, List.takeWhile_append_of_pos plain, List.takeWhile_cons_of_neg (by simp),
    List.append_nil, clauses_intercalate whole some]

end RowQuery.Sql

namespace RowQuery.Compile

open RowQuery.Schema RowQuery.Sql

/-! ## Selected expressions -/

/-- How the expression of a field is read: its column, or the text that the column has in the language of the context,
    under the name of the column. -/
def Context.selectedRead (ctx : Context) (backslash : Bool) (table : String) (f : Field) : List Lexeme :=
  let column := columnRead ctx.style table f.column
  match ctx.readLanguage? f with
  | some code =>
    languageRead column (literalRead backslash (languagePath code)) ++ [.word "AS", .quoted ctx.style.quote f.column]
  | none => column

/-- Everything of a table, which is named if others are joined to it. -/
def everythingRead (d : Dialect) (table : String) (joined : Bool) : List Lexeme :=
  if joined then [.quoted d.quote table, .symbol '.', .symbol '*'] else [.symbol '*']

section Expressions

variable (ctx : Context) (backslash : Bool) (table : String) (f : Field)

theorem whole_selectedRead : Whole (ctx.selectedRead backslash table f) := by
  unfold Context.selectedRead
  cases ctx.readLanguage? f with
  | none => exact fun _ => rfl
  | some code => exact (whole_languageRead _ _ _ _ _).append fun _ => rfl

theorem selectedRead_ne_nil : ctx.selectedRead backslash table f ≠ [] := by
  unfold Context.selectedRead
  cases ctx.readLanguage? f <;> simp [columnRead, languageRead]

theorem not_from_mem_selectedRead : .word "FROM" ∉ ctx.selectedRead backslash table f := by
  unfold Context.selectedRead
  cases ctx.readLanguage? f <;> simp [columnRead, languageRead, literalRead]

variable {ctx table f}

/-- The expression that is selected for a field reads as it should. -/
theorem lexemes_selectItem {s : SelectItem} (ok : ctx.localizer.expr f (some table) .null = .ok s.expr) :
    lexemes backslash (s.tokens ctx.style) = ctx.selectedRead backslash table f := by
  have expr := expr_eq_ok ok
  unfold SelectItem.tokens Context.selectedRead
  rw [expr]
  cases ctx.readLanguage? f with
  | none => simp +decide [Column.tokens, Token.lexemes_symbol, Token.lexemes_name, columnRead]
  | some code =>
    have read := lexemes_exprLanguage ctx.style backslash table f.column code
    rw [Column.of] at read
    simp [read, lexemes_spaced (show isWord "AS" = true by decide), Token.lexemes_name, Expr.source]

end Expressions

/-- An expression needs a dialect that is known. -/
theorem resolve_of_expr {tr : Localizer} {f : Field} {table : Option String} {language : Detail} {e : Expr}
    (ok : tr.expr f table language = .ok e) : ∃ d, Dialect.resolve tr.settings tr.dialect = .ok d := by
  simp only [Localizer.expr, Localizer.column, bind_eq_ok] at ok
  obtain ⟨_, ⟨d, known, -⟩, -⟩ := ok
  exact ⟨d, known⟩

/-! ## Statements -/

namespace Compiled

variable {c : Compiled}

/-- The tokens behind the `FROM` of a statement. -/
def behindFrom (c : Compiled) : List Token :=
  .name c.style c.table :: (c.joins.flatMap (fun clause => .space :: clause.tokens c.joinStyle) ++
    (if c.conditionTokens.isEmpty then [] else Token.spaced "WHERE" ++ c.whereTokens) ++ c.orderingTokens ++ c.pageTokens)

theorem statementTokens_eq_select (c : Compiled) :
    c.statementTokens =
      ([.word "SELECT", .space] ++ c.projectionTokens ++ [.space, .word "FROM"]) ++ .space :: c.behindFrom := by
  simp [statementTokens, fromTokens, orderingTokens, behindFrom]

/-- The text of a statement is read as what it selects between two words, whatever stands behind them. -/
theorem lex_statement (plain : ∀ s ∈ c.select, s.expr.source.Plain) (backslash : Bool) :
    ∃ rest, lex backslash (Token.print c.statementTokens) =
      .word "SELECT" :: (lexemes backslash c.projectionTokens ++ .word "FROM" :: rest) := by
  have projection := (marked_projection plain).legible
  have legible : Legible ([.word "SELECT", .space] ++ c.projectionTokens ++ [.space, .word "FROM"]) := by
    simp +decide [Legible, projection]
  have apart : LexState.startsApart (Token.print (.space :: c.behindFrom)).toList := by
    have starts := Token.startsApart_text (t := .space) (Token.print c.behindFrom).toList rfl rfl
    simpa [Token.print, String.join_cons] using starts
  refine ⟨lex backslash (Token.print (.space :: c.behindFrom)), ?_⟩
  rw [statementTokens_eq_select, lex_print_append legible apart]
  simp [Token.lexemes_word (show isWord "SELECT" = true by decide),
    Token.lexemes_word (show isWord "FROM" = true by decide)]

/-- A statement selects the clauses that its projection is read as. -/
theorem selected_statement (plain : ∀ s ∈ c.select, s.expr.source.Plain) {backslash : Bool}
    {pieces : List (List Lexeme)} (whole : ∀ ls ∈ pieces, Whole ls) (some : ∀ ls ∈ pieces, ls ≠ [])
    (noFrom : ∀ ls ∈ pieces, .word "FROM" ∉ ls)
    (read : lexemes backslash c.projectionTokens = [Lexeme.symbol ','].intercalate pieces) :
    selected (lex backslash (Token.print c.statementTokens)) = pieces := by
  obtain ⟨rest, statement⟩ := lex_statement plain backslash
  rw [statement, read]
  exact selected_eq whole some noFrom rest

/-- Where nothing is selected, everything of the table is. -/
theorem selected_of_none (none : c.select = []) (backslash : Bool) :
    selected (lex backslash (Token.print c.statementTokens)) =
      [everythingRead c.style c.table (!c.joins.isEmpty)] := by
  apply selected_statement
  · simp [none]
  · intro ls single
    rw [List.mem_singleton.mp single]
    apply whole_of_flat
    unfold everythingRead
    cases c.joins.isEmpty <;> simp
  · unfold everythingRead
    cases c.joins.isEmpty <;> simp
  · unfold everythingRead
    cases c.joins.isEmpty <;> simp
  · unfold projectionTokens everythingRead
    cases c.joins.isEmpty <;> simp +decide [none, Token.lexemes_symbol, Token.lexemes_name]

/-- The expressions of some columns are selected as they are. -/
theorem selected_of_columns {ctx : Context} {table : String} {columns : List Field} (styled : c.style = ctx.style)
    (some : columns ≠ [])
    (items : List.Forall₂ (fun f s => ctx.localizer.expr f (.some table) .null = .ok s.expr) columns c.select)
    (backslash : Bool) :
    selected (lex backslash (Token.print c.statementTokens)) = columns.map (ctx.selectedRead backslash table) := by
  have reads : c.select.map (fun s => lexemes backslash (s.tokens c.style)) =
      columns.map (ctx.selectedRead backslash table) := by
    rw [← List.forall₂_eq_eq_eq, List.forall₂_map_left_iff, List.forall₂_map_right_iff, styled]
    exact items.flip.imp fun _ _ item => lexemes_selectItem backslash item
  apply selected_statement
  · intro s member
    obtain ⟨f, -, item⟩ := exists_left_of_forall₂ items member
    rcases expr_cases item with same | ⟨code, -, -, -, same⟩
    · rw [same]
      exact Column.plain_of_quoted rfl
    · rw [same]
      exact Column.plain_of_quoted rfl
  · intro ls member
    obtain ⟨f, -, rfl⟩ := List.mem_map.mp member
    exact whole_selectedRead ctx backslash table f
  · intro ls member
    obtain ⟨f, -, rfl⟩ := List.mem_map.mp member
    exact selectedRead_ne_nil ctx backslash table f
  · intro ls member
    obtain ⟨f, -, rfl⟩ := List.mem_map.mp member
    exact not_from_mem_selectedRead ctx backslash table f
  · have comma : lexemes backslash Token.comma = [.symbol ','] := rfl
    have notEmpty : c.select.isEmpty = false := by
      rw [← isEmpty_of_forall₂ items]
      simpa using some
    rw [projectionTokens, notEmpty, Bool.not_false, if_pos rfl, lexemes_intercalate, comma, List.map_map, ← reads]
    rfl

end Compiled

/-- A compiled query has an expression for each field that it names and that is a column. -/
theorem Stages.Yield.items {ctx : Context} {strict : Bool} {q : Query} {subject : Subject} {table : Option String}
    {c : Compiled} {s : Stages} (yields : s.Yield ctx strict q subject table c) (named : q.fields ≠ []) :
    ∃ fields, List.Forall₂ (fun name f => s.schema.get? name = some f) q.fields fields ∧
      List.Forall₂ (fun f item => ctx.localizer.expr f (some c.table) .null = .ok item.expr)
        (fields.filter fun f => !f.isRelation) c.select := by
  have select := yields.select
  rw [if_neg (by simp [named])] at select
  obtain ⟨fields, found, items⟩ := selectList_eq_ok select
  rw [selectedFields, if_neg (by simpa using named), mapM_eq_ok] at found
  rw [rootTable_rootTable] at items
  refine ⟨fields, found.imp fun _ _ => get?_of_field, ?_⟩
  rw [yields.compiled]
  exact items

/-- A query that names fields selects exactly the expressions of those that are columns, in the order of the names,
    unless all of them are relations: then everything of the table is selected. -/
theorem selected_of_fields {ctx : Context} {strict : Bool} {q : Query} {subject : Subject} {table : Option String}
    {c : Compiled} (named : q.fields ≠ []) (ok : (compileQuery ctx strict q subject table).result = .ok c) :
    ∃ schema fields, ctx.schemaOf subject = .ok schema ∧ c.table = rootTable schema table ∧
      List.Forall₂ (fun name f => schema.get? name = some f) q.fields fields ∧
      ((∃ f ∈ fields, f.isRelation = false) → ∃ sql args, c.statement ctx.settings = .ok (sql, args)) ∧
      ∀ sql args, c.statement ctx.settings = .ok (sql, args) → ∀ backslash,
        selected (lex backslash sql) =
          if ∀ f ∈ fields, f.isRelation = true then [everythingRead ctx.style c.table (!c.joins.isEmpty)]
          else (fields.filter fun f => !f.isRelation).map (ctx.selectedRead backslash c.table) := by
  obtain ⟨s, yields⟩ := compileQuery_eq_ok ok
  obtain ⟨fields, found, items⟩ := yields.items named
  have tabled : c.table = rootTable s.schema table := by rw [yields.compiled]
  have styled : c.style = ctx.style := by rw [yields.compiled]
  have asked : c.requested = ctx.dialect := by rw [yields.compiled]
  refine ⟨s.schema, fields, yields.schema, tabled, found, ?_, ?_⟩
  · rintro ⟨f, member, column⟩
    have inColumns : f ∈ fields.filter fun f => !f.isRelation := List.mem_filter.mpr ⟨member, by simp [column]⟩
    obtain ⟨item, -, expr⟩ := exists_left_of_forall₂ items.flip inColumns
    obtain ⟨d, known⟩ := resolve_of_expr expr
    have known : Dialect.resolve ctx.settings ctx.dialect = .ok d := known
    refine ⟨Token.print c.statementTokens, c.args ++ c.pageArgs, ?_⟩
    rw [Compiled.statement, asked, known]
    rfl
  · intro sql args stated backslash
    obtain ⟨-, -, same⟩ := bind_eq_ok.mp stated
    cases same
    by_cases relations : ∀ f ∈ fields, f.isRelation = true
    · have none : c.select = [] := by
        have noColumns : fields.filter (fun f => !f.isRelation) = [] := by simpa using relations
        rw [noColumns] at items
        exact List.forall₂_nil_left_iff.mp items
      rw [if_pos relations, c.selected_of_none none, styled]
    · rw [if_neg relations]
      refine Compiled.selected_of_columns styled ?_ items backslash
      simpa using relations

namespace Books

/-- Pamphlets in German. -/
def german : Context := { printing with language := some "de" }

def namedFields : Query := { fields := ["Headline", "Author", "Meta", "Headline"], preloads := ["Author"], limit := 5 }

end Books

theorem selected_of_fields_pamphlets :
    ∃ c, (compileQuery Books.german true Books.namedFields (.entity "Pamphlet") none).result = .ok c ∧
      c.select.length = 3 ∧
      ∃ schema fields, Books.german.schemaOf (.entity "Pamphlet") = .ok schema ∧
        List.Forall₂ (fun name f => schema.get? name = some f) Books.namedFields.fields fields ∧
        ∃ sql args, c.statement Books.german.settings = .ok (sql, args) ∧ ∀ backslash,
          selected (lex backslash sql) =
            (fields.filter fun f => !f.isRelation).map (Books.german.selectedRead backslash c.table) := by
  obtain ⟨c, ok, three⟩ : ∃ c, (compileQuery Books.german true Books.namedFields (.entity "Pamphlet") none).result =
      .ok c ∧ c.select.length = 3 := ⟨_, rfl, rfl⟩
  obtain ⟨schema, fields, described, -, found, states, selects⟩ := selected_of_fields (by decide) ok
  have column : ∃ f ∈ fields, f.isRelation = false := by
    cases described
    obtain ⟨headline, others, first, -, rfl⟩ := List.forall₂_cons_left_iff.mp found
    cases first
    exact ⟨_, List.mem_cons_self, rfl⟩
  obtain ⟨sql, args, stated⟩ := states column
  refine ⟨c, ok, three, schema, fields, described, found, sql, args, stated, fun backslash => ?_⟩
  rw [selects sql args stated backslash, if_neg]
  intro relations
  obtain ⟨f, member, isColumn⟩ := column
  exact absurd (relations f member) (by simp [isColumn])

/-- All relations that are asked for are passed over, and every column of the table is selected. -/
theorem selected_unasked_books :
    ∃ c args, (compileQuery Books.context true { fields := ["Author", "Tags"] } (.entity "Book") none).result = .ok c ∧
      c.select = [] ∧ c.statement Books.context.settings = .ok ("SELECT * FROM \x60book\x60", args) ∧
      ∀ backslash, selected (lex backslash "SELECT * FROM \x60book\x60") = [[.symbol '*']] := by
  refine ⟨_, _, rfl, rfl, rfl, ?_⟩
  decide

end RowQuery.Compile
