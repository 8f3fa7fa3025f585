import RowQuery.Proofs.Discriminators
import RowQuery.Proofs.QueryCore

/-!
# Quotes around names

The dialects differ in the quotes around names. So the tokens of every piece of SQL are the same in both
but for those quotes, and the texts are read alike if quoted names are compared by what is between their
quotes. A join clause is told apart from any other by how it is written, in either dialect, whatever
characters its names hold.
-/

namespace RowQuery.Sql

theorem Dialect.resolve_name (settings : Settings) (d : Dialect) :
    resolve settings (some d.name) = .ok d := by
  cases d <;> rfl

/-- A token with its name quoted in another dialect. -/
def Token.requote (d : Dialect) : Token → Token
  | .name _ s => .name d s
  | t => t

/-- A lexeme in which every quoted name is between backticks, whatever its quotes were. -/
def Lexeme.unquote : Lexeme → Lexeme
  | .quoted q s => if q = '\'' then .quoted q s else .quoted '\x60' s
  | l => l

/-- Texts that are read as the same lexemes, quoted names compared by what is between their quotes. -/
def ReadAlike (s t : String) : Prop :=
  ∀ backslash, (lex backslash s).map Lexeme.unquote = (lex backslash t).map Lexeme.unquote

section Requote

variable (d d' : Dialect)

@[simp] theorem requote_word (s : String) : (Token.word s).requote d = .word s := rfl

@[simp] theorem requote_space : Token.space.requote d = .space := rfl

@[simp] theorem requote_symbol (s : String) : (Token.symbol s).requote d = .symbol s := rfl

@[simp] theorem requote_name (s : String) : (Token.name d' s).requote d = .name d s := rfl

@[simp] theorem requote_literal (s : String) : (Token.literal s).requote d = .literal s := rfl

@[simp] theorem requote_placeholder : Token.placeholder.requote d = .placeholder := rfl

theorem regular_requote (t : Token) : (t.requote d).regular = t.regular := by
  cases t <;> rfl

theorem solid_requote (t : Token) : (t.requote d).solid = t.solid := by
  cases t <;> rfl

theorem Legible.requote {ts : List Token} (legible : Legible ts) :
    Legible (ts.map (Token.requote d)) := by
  induction ts with
  | nil => exact legible
  | cons t ts ih =>
    have rest := ih legible.tail
    cases ts with
    | nil => exact (regular_requote d t).trans legible
    | cons u ts =>
      obtain ⟨regular, apart, _⟩ := legible
      refine ⟨(regular_requote d t).trans regular, ?_, rest⟩
      rw [solid_requote, solid_requote]
      exact apart

theorem unquote_requote (backslash : Bool) (t : Token) :
    ((t.requote d).lexemes backslash).map Lexeme.unquote = (t.lexemes backslash).map Lexeme.unquote := by
  cases t with
  | name d' s => simp [Token.lexemes_name, Lexeme.unquote, quote_ne_single]
  | word | space | symbol | literal | placeholder => rfl

/-- Tokens in another dialect are read alike. -/
theorem readAlike_requote {ts : List Token} (legible : Legible ts) :
    ReadAlike (Token.print ts) (Token.print (ts.map (Token.requote d))) := by
  intro backslash
  rw [lex_print legible, lex_print (legible.requote d)]
  clear legible
  induction ts with
  | nil => rfl
  | cons t ts ih => simp [unquote_requote, ih]

theorem map_joined (f : Token → Token) (between : List Token) (parts : List (List Token)) :
    (Token.joined between parts).map f = Token.joined (between.map f) (parts.map (List.map f)) := by
  unfold Token.joined
  induction parts with
  | nil => rfl
  | cons part parts ih =>
    cases parts with
    | nil => simp
    | cons next parts => simp_all [List.intercalate_cons_cons]

theorem requote_words (ws : List String) :
    (Token.words ws).map (Token.requote d) = Token.words ws := by
  unfold Token.words
  induction ws with
  | nil => rfl
  | cons w ws ih =>
    cases ws with
    | nil => rfl
    | cons v ws => simpa [List.intersperse_cons_cons] using ih

/-! ## Pieces of SQL -/

theorem Column.requote (c : Column) : (c.tokens d).map (Token.requote d') = c.tokens d' := by
  obtain ⟨table, name, bare⟩ := c
  cases bare <;> cases table <;> rfl

theorem Expr.requote (e : Expr) : (e.tokens d).map (Token.requote d') = e.tokens d' := by
  cases e with
  | column c => exact Column.requote d d' c
  | jsonText c keys => simp [Expr.tokens, jsonTextTokens, Token.spaced, Column.requote d d']
  | language c code => simp [Expr.tokens, languageTokens, Token.comma, Column.requote d d']

theorem Test.requote (t : Test) : t.tokens.map (Token.requote d) = t.tokens := by
  cases t with
  | compare op value => cases op <;> rfl
  | isNull | isNotNull => rfl
  | oneOf values =>
    have list : ((values.map fun _ => Token.placeholder).intersperse (.symbol ",")).map (Token.requote d) =
        (values.map fun _ => Token.placeholder).intersperse (.symbol ",") := by
      induction values with
      | nil => rfl
      | cons v vs ih =>
        cases vs with
        | nil => rfl
        | cons w ws => simpa [List.intersperse_cons_cons] using ih
    simp only [Test.tokens, Token.bracketed, List.map_append, list]
    rfl

/-- A condition in another dialect has the same tokens but for the quotes around names. -/
theorem Predicate.requote (p : Predicate) : (p.tokens d).map (Token.requote d') = p.tokens d' := by
  induction p with
  | test lhs t => rw [tokens, tokens, List.map_append, Expr.requote, Test.requote]
  | anyLanguage c found pattern =>
    simp [tokens, Token.comma, Column.requote d d', requote_words]
  | sameColumn a b => simp [tokens, Token.spacedSymbol, Column.requote d d']
  | hasText c value => simp [tokens, Token.spacedSymbol, Column.requote d d']
  | and p q left right => simp [tokens, connectTokens, Token.spaced, left, right]
  | or p q left right => simp [tokens, connectTokens, Token.spaced, left, right]
  | group p ih => simp [tokens, Token.bracketedSpaced, ih]
  | inSelect lhs selected source p ih =>
    simp [tokens, inSelectTokens, Token.spaced, Token.bracketedSpaced, Column.requote d d', ih]

theorem requote_connected (w : String) (ps : List Predicate) :
    (connectedTokens d w ps).map (Token.requote d') = connectedTokens d' w ps := by
  simp [connectedTokens, map_joined, Token.spaced, Function.comp_def, Predicate.requote d d']

theorem JoinStep.requote (j : JoinStep) : (j.tokens d).map (Token.requote d') = j.tokens d' := by
  simp [JoinStep.tokens_eq, requote_words, Token.spaced, Predicate.requote d d']

theorem JoinClause.requote (clause : JoinClause) :
    (clause.tokens d).map (Token.requote d') = clause.tokens d' := by
  simp [JoinClause.tokens, map_joined, Function.comp_def, JoinStep.requote d d']

theorem SelectItem.requote (s : SelectItem) : (s.tokens d).map (Token.requote d') = s.tokens d' := by
  obtain ⟨expr⟩ := s
  cases expr with
  | column c => exact Column.requote d d' c
  | jsonText c keys | language c code =>
    simp only [SelectItem.tokens, List.map_append, Expr.requote d d', Token.spaced]
    rfl

theorem requote_order (terms : List OrderTerm) :
    (orderTokens d terms).map (Token.requote d') = orderTokens d' terms := by
  have each : ∀ t : OrderTerm, (t.tokens d).map (Token.requote d') = t.tokens d' := by
    rintro ⟨key | name, direction⟩
    · simp [OrderTerm.tokens, OrderKey.tokens, Expr.requote d d']
    · rfl
  simp [orderTokens, map_joined, Token.comma, Function.comp_def, each]

end Requote

/-! ## Joins are told apart by their texts -/

/-- A joined table whose columns are all qualified and quoted. -/
structure JoinStep.Quoted (j : JoinStep) : Prop where
  left : ∃ table name, j.left = .of table name
  right : ∃ table name, j.right = .of table name
  discriminator : ∀ x ∈ j.discriminator, ∃ table name, x.column = .of table name

theorem JoinStep.Quoted.plain {j : JoinStep} (quoted : j.Quoted) : j.Plain := by
  obtain ⟨⟨_, _, left⟩, ⟨_, _, right⟩, discriminator⟩ := quoted
  refine ⟨left ▸ Column.plain_of _ _, right ▸ Column.plain_of _ _, ?_⟩
  intro x isType
  obtain ⟨_, _, column⟩ := discriminator x isType
  exact column ▸ Column.plain_of _ _

theorem lexemes_of (d : Dialect) (table name : String) :
    lexemes true ((Column.of table name).tokens d) =
      [.quoted d.quote table, .symbol '.', .quoted d.quote name] := rfl

/-- The lexemes of a joined table. -/
theorem lexemes_step (d : Dialect) (j : JoinStep) :
    lexemes true (j.tokens d) = j.type.words.map .word ++ .quoted d.quote j.table :: .word "ON" ::
      (lexemes true (j.left.tokens d) ++ .symbol '=' :: (lexemes true (j.right.tokens d) ++
        j.discriminator.toList.flatMap fun x =>
          .word "AND" :: (lexemes true (x.column.tokens d) ++ [.symbol '=', .quoted '\'' x.value]))) := by
  obtain ⟨type, table, left, right, discriminator⟩ := j
  cases discriminator <;> cases type <;>
    simp +decide [JoinStep.tokens, Token.words, JoinType.words, lexemes_spaced, Predicate.tokens,
      Token.spacedSymbol, Discriminator.predicate, lexemes_connect, Token.lexemes_word,
      Token.lexemes_name, Token.lexemes_symbol, Token.lexemes_literal]

theorem lexemes_clause (d : Dialect) (clause : JoinClause) :
    lexemes true (clause.tokens d) = clause.flatMap fun j => lexemes true (j.tokens d) := by
  unfold JoinClause.tokens Token.joined
  induction clause with
  | nil => rfl
  | cons j js ih =>
    cases js with
    | nil => simp
    | cons k ks => simp_all [List.intercalate_cons_cons]

/-- No clause starts as a discriminator does. -/
theorem clause_ne_and (d : Dialect) (clause : JoinClause) (ls : List Lexeme) :
    (clause.flatMap fun j => lexemes true (j.tokens d)) ≠ .word "AND" :: ls := by
  cases clause with
  | nil => simp
  | cons j js =>
    rw [List.flatMap_cons, lexemes_step]
    cases j.type <;> simp [JoinType.words]

/-- What a joined table is written as shows where it ends: nothing else follows than another join. -/
theorem JoinStep.eq_of_lexemes {d : Dialect} {j k : JoinStep} {ls ms : List Lexeme} (quoted : j.Quoted)
    (quoted' : k.Quoted) (apart : ∀ rest, ls ≠ .word "AND" :: rest)
    (apart' : ∀ rest, ms ≠ .word "AND" :: rest)
    (same : lexemes true (j.tokens d) ++ ls = lexemes true (k.tokens d) ++ ms) : j = k ∧ ls = ms := by
  obtain ⟨⟨_, _, left⟩, ⟨_, _, right⟩, type⟩ := quoted
  obtain ⟨⟨_, _, left'⟩, ⟨_, _, right'⟩, type'⟩ := quoted'
  obtain ⟨kind, table, a, b, x⟩ := j
  obtain ⟨kind', table', a', b', x'⟩ := k
  subst left right left' right'
  rw [lexemes_step, lexemes_step] at same
  have kinds : kind = kind' := by
    cases kind <;> cases kind' <;> simp [JoinType.words] at same ⊢
  subst kinds
  simp only [lexemes_of, List.cons_append, List.append_assoc, List.nil_append,
    List.append_cancel_left_eq, List.cons.injEq, Lexeme.quoted.injEq, true_and] at same
  obtain ⟨rfl, rfl, rfl, rfl, rfl, same⟩ := same
  -- The first lexeme behind the columns tells whether a discriminator follows.
  cases x with
  | none =>
    cases x' with
    | none => exact ⟨rfl, same⟩
    | some y => exact absurd same (apart _)
  | some x =>
    cases x' with
    | none => exact absurd same.symm (apart' _)
    | some y =>
      obtain ⟨_, _, column⟩ := type x rfl
      obtain ⟨_, _, column'⟩ := type' y rfl
      cases x
      cases y
      subst column column'
      simp [lexemes_of] at same
      obtain ⟨rfl, rfl, rfl, rfl⟩ := same
      exact ⟨rfl, rfl⟩

/-- Clauses whose columns are quoted are told apart by how they are written. -/
theorem JoinClause.eq_of_text_eq {d : Dialect} {clause clause' : JoinClause}
    (quoted : ∀ j ∈ clause, j.Quoted) (quoted' : ∀ j ∈ clause', j.Quoted)
    (same : clause.text d = clause'.text d) : clause = clause' := by
  have reads : ∀ {clause : JoinClause}, (∀ j ∈ clause, j.Quoted) →
      lex true (clause.text d) = clause.flatMap fun j => lexemes true (j.tokens d) := by
    intro clause quoted
    have marked := JoinClause.marked d fun j member => (quoted j member).plain
    rw [JoinClause.text, lex_print marked.legible, lexemes_clause]
  have equal := (reads quoted).symm.trans ((congrArg (lex true) same).trans (reads quoted'))
  clear same reads
  have some : ∀ (j : JoinStep) (ls : List Lexeme), lexemes true (j.tokens d) ++ ls ≠ [] := by
    intro j ls
    rw [lexemes_step]
    simp
  induction clause generalizing clause' with
  | nil =>
    cases clause' with
    | nil => rfl
    | cons k ks => exact absurd equal.symm (some k _)
  | cons j js ih =>
    cases clause' with
    | nil => exact absurd equal (some j _)
    | cons k ks =>
      obtain ⟨rfl, rest⟩ := JoinStep.eq_of_lexemes (quoted j (by simp)) (quoted' k (by simp))
        (clause_ne_and d js) (clause_ne_and d ks) equal
      rw [ih (fun l member => quoted l (by simp [member])) (fun l member => quoted' l (by simp [member])) rest]

end RowQuery.Sql

namespace RowQuery.Compile

open RowQuery.Schema RowQuery.Sql RowQuery.Join

namespace Compiled

/-- A compiled query whose names, those of its joins included, are written in a dialect. -/
def inDialect (d : Dialect) (c : Compiled) : Compiled :=
  { c with requested := some d.name, style := d, joinStyle := d }

variable (d d' : Dialect) (c : Compiled)

theorem requote_conditions :
    (c.inDialect d).conditionTokens.map (List.map (Token.requote d')) = (c.inDialect d').conditionTokens := by
  have search : (SearchPart.tokens d ⟨c.search, []⟩).map (Token.requote d') =
      SearchPart.tokens d' ⟨c.search, []⟩ := by
    simp only [SearchPart.tokens]
    split
    · simp [Token.bracketed, requote_connected d d']
    · exact requote_connected d d' _ _
  unfold conditionTokens inDialect
  simp only [List.map_append, List.map_map, Function.comp_def, Predicate.requote d d']
  congr 2
  · split
    · rfl
    · simp [Token.bracketed, requote_connected d d']
  · split
    · rfl
    · simp [search]

theorem requote_where :
    (c.inDialect d).whereTokens.map (Token.requote d') = (c.inDialect d').whereTokens := by
  rw [whereTokens, map_joined, requote_conditions]
  rfl

theorem requote_from :
    (c.inDialect d).fromTokens.map (Token.requote d') = (c.inDialect d').fromTokens := by
  have none : (c.inDialect d).conditionTokens.isEmpty = (c.inDialect d').conditionTokens.isEmpty := by
    rw [← requote_conditions d d', List.isEmpty_map]
  have joins : (c.joins.flatMap fun clause => Token.space :: clause.tokens d).map (Token.requote d') =
      c.joins.flatMap fun clause => Token.space :: clause.tokens d' := by
    simp [List.map_flatMap, JoinClause.requote d d']
  unfold fromTokens
  rw [List.map_append, List.map_append, none]
  congr 1
  · exact congrArg (_ ++ ·) joins
  · split
    · rfl
    · rw [List.map_append, requote_where]
      rfl

theorem requote_projection :
    (c.inDialect d).projectionTokens.map (Token.requote d') = (c.inDialect d').projectionTokens := by
  unfold projectionTokens inDialect
  split
  · simp [map_joined, Token.comma, Function.comp_def, SelectItem.requote d d']
  · split
    · rfl
    · rfl

theorem requote_statement :
    (c.inDialect d).statementTokens.map (Token.requote d') = (c.inDialect d').statementTokens := by
  have order : (c.inDialect d).orderingTokens.map (Token.requote d') = (c.inDialect d').orderingTokens := by
    unfold orderingTokens inDialect
    split
    · rfl
    · simp [requote_words, requote_order d d']
  have page : (c.inDialect d).pageTokens.map (Token.requote d') = (c.inDialect d').pageTokens := by
    unfold pageTokens isPaged inDialect
    split
    · split <;> rfl
    · rfl
  have parts : ∀ d, (c.inDialect d).statementTokens = [.word "SELECT", .space] ++
      (c.inDialect d).projectionTokens ++ [.space] ++ (c.inDialect d).fromTokens ++
      (c.inDialect d).orderingTokens ++ (c.inDialect d).pageTokens := fun _ => rfl
  rw [parts, parts]
  simp only [List.map_append, List.map_cons, List.map_nil, requote_word, requote_space, requote_projection,
    requote_from, order, page]

theorem requote_count (key : String) :
    ((c.inDialect d).countTokens key).map (Token.requote d') = (c.inDialect d').countTokens key := by
  have parts : ∀ d, (c.inDialect d).countTokens key = [.word "SELECT", .space, .word "COUNT"] ++
      Token.bracketed (if c.joins.isEmpty then [.symbol "*"]
        else [.word "DISTINCT", .space] ++ (Column.of c.table key).tokens d) ++
      [.space] ++ (c.inDialect d).fromTokens := fun _ => rfl
  rw [parts, parts, List.map_append, requote_from d d']
  by_cases none : c.joins.isEmpty = true
  · simp only [none, if_true]
    rfl
  · simp [none, Token.bracketed, Column.requote d d']

end Compiled

end RowQuery.Compile
