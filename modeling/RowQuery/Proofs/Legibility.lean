import RowQuery.Compile.Statement
import RowQuery.Proofs.Lexing

/-!
# Legible SQL

Every piece of SQL that is written is legible, and has as many placeholders as values are bound in it,
provided that the names which are written without quotes are identifiers. The pieces are taken in the
order of their definitions, from columns up to conditions, joins and orders.
-/

namespace RowQuery.Sql

/-- Whether a name can be written without quotes: it is a word that starts with no digit, and none of
    the connectives, in small or in capital letters. -/
def isIdentifier (s : String) : Bool :=
  isWord s && !s.toList.head?.any Char.isDigit &&
    Text.toSmalls s != "and" && Text.toSmalls s != "or"

theorem isWord_of_isIdentifier {s : String} (identifier : isIdentifier s = true) :
    isWord s = true := by
  simp only [isIdentifier, Bool.and_eq_true] at identifier
  exact identifier.1.1.1

/-- A column whose name is quoted or an identifier. -/
def Column.Plain (c : Column) : Prop := c.bare = true → isIdentifier c.name = true

theorem Column.plain_of_quoted {c : Column} (quoted : c.bare = false) : c.Plain := by
  intro bare
  rw [quoted] at bare
  cases bare

theorem Column.plain_of (table name : String) : (Column.of table name).Plain :=
  Column.plain_of_quoted rfl

/-- The columns that a condition names, those of its subselects included. -/
def Predicate.columns : Predicate → List Column
  | .test lhs _ => [lhs.source]
  | .anyLanguage c _ _ => [c]
  | .sameColumn a b => [a, b]
  | .hasText c _ => [c]
  | .and p q => p.columns ++ q.columns
  | .or p q => p.columns ++ q.columns
  | .group p => p.columns
  | .inSelect lhs selected _ p => lhs :: selected :: p.columns

/-- A condition whose columns are plain. -/
def Predicate.Plain (p : Predicate) : Prop := ∀ c ∈ p.columns, c.Plain

theorem joined_append (between : List Token) {xs ys : List (List Token)} (first : xs ≠ [])
    (second : ys ≠ []) : Token.joined between (xs ++ ys) =
      Token.joined between xs ++ between ++ Token.joined between ys := by
  unfold Token.joined
  induction xs with
  | nil => exact absurd rfl first
  | cons x xs ih =>
    cases xs with
    | nil => simp [List.intercalate_cons_of_ne_nil second]
    | cons y ys =>
      have rest := ih (by simp)
      simp only [List.cons_append, List.intercalate_cons_cons] at rest ⊢
      rw [rest]
      simp

theorem tokens_anyOf (d : Dialect) (p : Predicate) (ps : List Predicate) :
    (Predicate.anyOf p ps).tokens d = connectedTokens d "OR" (p :: ps) := by
  induction ps generalizing p with
  | nil => simp [Predicate.anyOf, connectedTokens, Token.joined]
  | cons q qs ih =>
    simp [Predicate.anyOf, Predicate.tokens, ih, connectedTokens, connectTokens, Token.joined]

theorem columns_anyOf (p : Predicate) (ps : List Predicate) :
    (Predicate.anyOf p ps).columns = (p :: ps).flatMap Predicate.columns := by
  induction ps generalizing p with
  | nil => simp [Predicate.anyOf]
  | cons q qs ih => simp [Predicate.anyOf, Predicate.columns, ih]

theorem args_anyOf (p : Predicate) (ps : List Predicate) :
    (Predicate.anyOf p ps).args = argsOf (p :: ps) := by
  induction ps generalizing p with
  | nil => simp [Predicate.anyOf, argsOf]
  | cons q qs ih => simp [Predicate.anyOf, Predicate.args, ih, argsOf]

theorem Frame.nest_cons (frame : Frame) (frames : List Frame) (p : Predicate) :
    Frame.nest (frame :: frames) p = frame.fill (Frame.nest frames p) := rfl

/-- The columns that a frame names around its hole. -/
def Frame.columns : Frame → List Column
  | .select lhs selected _ => [lhs, selected]
  | .also q => q.columns

/-- Frames add their columns to those of the condition in the hole. -/
theorem mem_columns_nest {frames : List Frame} {p : Predicate} {c : Column} :
    c ∈ (Frame.nest frames p).columns ↔
      c ∈ p.columns ∨ ∃ frame ∈ frames, c ∈ frame.columns := by
  induction frames with
  | nil => simp [Frame.nest]
  | cons frame frames ih =>
    rw [Frame.nest_cons]
    cases frame with
    | select lhs selected source =>
      simp only [Frame.fill, Predicate.columns, List.mem_cons, ih, Frame.columns, exists_eq_or_imp]
      grind
    | also q =>
      simp only [Frame.fill, Predicate.columns, List.mem_append, ih, Frame.columns, List.mem_cons,
        exists_eq_or_imp]
      grind

/-- The values that a frame binds around its hole. -/
def Frame.args : Frame → List Value
  | .select _ _ _ => []
  | .also q => q.args

theorem args_nest {frames : List Frame} (unbound : ∀ frame ∈ frames, frame.args = [])
    (p : Predicate) : (Frame.nest frames p).args = p.args := by
  induction frames with
  | nil => rfl
  | cons frame frames ih =>
    have rest := ih fun other member => unbound other (by simp [member])
    have first := unbound frame (by simp)
    rw [Frame.nest_cons]
    cases frame with
    | select lhs selected source => exact rest
    | also q =>
      have none : q.args = [] := first
      simp [Frame.fill, Predicate.args, rest, none]

section Lexemes

variable {backslash : Bool}

/-- The lexemes of a membership in a subselect. -/
def inSelectLexemes (lhs selected : List Lexeme) (source : Lexeme) (condition : List Lexeme) :
    List Lexeme :=
  lhs ++ .word "IN" :: .symbol '(' :: .word "SELECT" :: (selected ++ .word "FROM" :: source ::
    .word "WHERE" :: .symbol '(' :: (condition ++ [.symbol ')', .symbol ')']))

theorem lexemes_inSelect (d : Dialect) (lhs selected : Column) (source : String) (ts : List Token) :
    lexemes backslash (inSelectTokens d lhs selected source ts) =
      inSelectLexemes (lexemes backslash (lhs.tokens d)) (lexemes backslash (selected.tokens d))
        (.quoted d.quote source) (lexemes backslash ts) := by
  simp +decide [inSelectTokens, inSelectLexemes, lexemes_spaced, Token.bracketedSpaced,
    Token.lexemes_word, Token.lexemes_symbol, Token.lexemes_name]

theorem lexemes_connect {w : String} (word : isWord w = true) (ts us : List Token) :
    lexemes backslash (connectTokens w ts us) = lexemes backslash ts ++ .word w :: lexemes backslash us := by
  simp [connectTokens, lexemes_spaced word]

theorem lexemes_bracketedSpaced (ts : List Token) :
    lexemes backslash (Token.bracketedSpaced ts) = .symbol '(' :: lexemes backslash ts ++ [.symbol ')'] := by
  simp [Token.bracketedSpaced, Token.lexemes_symbol]

theorem lexemes_bracketed (ts : List Token) :
    lexemes backslash (Token.bracketed ts) = .symbol '(' :: lexemes backslash ts ++ [.symbol ')'] := by
  simp [Token.bracketed, Token.lexemes_symbol]

end Lexemes

/-- Tokens that are legible and have a given number of placeholders. -/
structure Marked (ts : List Token) (n : Nat) : Prop where
  legible : Legible ts
  count : ts.count .placeholder = n

/-- The placeholders of a piece are read as such, whatever a backslash means. -/
theorem Marked.placeholders_eq (backslash : Bool) {ts : List Token} {n : Nat} (marked : Marked ts n) :
    placeholders (lexemes backslash ts) = n := by
  rw [placeholders_lexemes marked.legible.allRegular, marked.count]

section Pieces

variable (d : Dialect)

theorem Column.marked {c : Column} (plain : c.Plain) : Marked (c.tokens d) 0 := by
  obtain ⟨table, name, bare⟩ := c
  cases bare with
  | true =>
    have regular := Token.regular_word (isWord_of_isIdentifier (plain rfl))
    cases table <;> constructor <;> simp_all +decide [Column.tokens, Legible, Token.solid]
  | false =>
    cases table <;> constructor <;> simp +decide [Column.tokens, Legible, Token.solid]

theorem Expr.marked {e : Expr} (plain : e.source.Plain) : Marked (e.tokens d) 0 := by
  cases e with
  | column c => exact Column.marked d plain
  | jsonText c keys =>
    obtain ⟨legible, count⟩ : Marked (c.tokens d) 0 := Column.marked d plain
    constructor
    · simp +decide [Expr.tokens, jsonTextTokens, Token.spaced, Legible, legible]
    · simp +decide [Expr.tokens, jsonTextTokens, Token.spaced, count]
  | language c code =>
    obtain ⟨legible, count⟩ : Marked (c.tokens d) 0 := Column.marked d plain
    constructor
    · simp +decide [Expr.tokens, languageTokens, Token.comma, Legible, legible]
    · simp +decide [Expr.tokens, languageTokens, Token.comma, count]

/-- One placeholder for each value, with commas between them. -/
theorem marked_values (values : List Value) :
    Marked ((values.map fun _ => Token.placeholder).intersperse (.symbol ",")) values.length := by
  induction values with
  | nil => exact ⟨trivial, rfl⟩
  | cons v vs ih =>
    cases vs with
    | nil => exact ⟨rfl, rfl⟩
    | cons w ws =>
      obtain ⟨legible, count⟩ := ih
      simp only [List.map_cons, List.intersperse_cons_cons] at legible count ⊢
      constructor
      · simpa +decide using legible
      · simpa +decide using count

/-- The tokens of a test may stand behind anything. -/
theorem Test.marked {ts : List Token} {n : Nat} (marked : Marked ts n) (t : Test) :
    Marked (ts ++ t.tokens) (n + t.args.length) := by
  obtain ⟨legible, count⟩ := marked
  cases t with
  | compare op value =>
    constructor
    · cases op <;> simp +decide [Test.tokens, Comparison.token, Legible, legible]
    · cases op <;> simp +decide [Test.tokens, Test.args, Comparison.token, count]
  | isNull =>
    constructor
    · simp +decide [Test.tokens, Token.words, Legible, legible]
    · simp +decide [Test.tokens, Test.args, Token.words, count]
  | isNotNull =>
    constructor
    · simp +decide [Test.tokens, Token.words, Legible, legible]
    · simp +decide [Test.tokens, Test.args, Token.words, count]
  | oneOf values =>
    have listed := marked_values values
    rw [Test.tokens, Test.args]
    generalize (values.map fun _ => Token.placeholder).intersperse (.symbol ",") = list at listed ⊢
    constructor
    · simp +decide [Token.bracketed, Legible, legible, listed.legible]
    · simp +decide [Token.bracketed, count, listed.count]

namespace Marked

variable {ps qs : List Token} {m n : Nat}

theorem connect {w : String} (word : isWord w = true) (left : Marked ps m) (right : Marked qs n) :
    Marked (connectTokens w ps qs) (m + n) := by
  constructor
  · simp [connectTokens, Token.spaced, Legible, Token.solid, Token.regular_word word,
      left.legible, right.legible]
  · simp [connectTokens, Token.spaced, left.count, right.count]

theorem bracketed (inner : Marked ps n) : Marked (Token.bracketed ps) n := by
  constructor
  · simp +decide [Token.bracketed, Legible, inner.legible]
  · simp [Token.bracketed, inner.count]

theorem bracketedSpaced (inner : Marked ps n) : Marked (Token.bracketedSpaced ps) n := by
  constructor
  · simp +decide [Token.bracketedSpaced, Legible, inner.legible]
  · simp [Token.bracketedSpaced, inner.count]

theorem inSelect {lhs selected : Column} (source : String) (left : lhs.Plain)
    (right : selected.Plain) (inner : Marked ps n) :
    Marked (inSelectTokens d lhs selected source ps) n := by
  obtain ⟨legibleLeft, countLeft⟩ := Column.marked d left
  obtain ⟨legibleRight, countRight⟩ := Column.marked d right
  constructor
  · simp +decide [inSelectTokens, Token.spaced, Token.bracketedSpaced, Legible, legibleLeft,
      legibleRight, inner.legible]
  · simp +decide [inSelectTokens, Token.spaced, Token.bracketedSpaced, countLeft, countRight,
      inner.count]

end Marked

/-- A condition has a placeholder for each of its values. -/
theorem Predicate.marked {p : Predicate} (plain : p.Plain) :
    Marked (p.tokens d) p.args.length := by
  induction p with
  | test lhs t =>
    have source : Marked (lhs.tokens d) 0 := Expr.marked d (plain _ (by simp [columns]))
    simpa [tokens, args] using Test.marked source t
  | anyLanguage c found pattern =>
    obtain ⟨legible, count⟩ : Marked (c.tokens d) 0 := Column.marked d (plain _ (by simp [columns]))
    constructor
    · cases found <;> simp +decide [tokens, Token.comma, Token.words, Legible, legible]
    · cases found <;> simp +decide [tokens, args, Token.comma, Token.words, count]
  | sameColumn a b =>
    have left : Marked (a.tokens d) 0 := Column.marked d (plain _ (by simp [columns]))
    have right : Marked (b.tokens d) 0 := Column.marked d (plain _ (by simp [columns]))
    constructor
    · simp +decide [tokens, Token.spacedSymbol, left.legible, right.legible]
    · simp [tokens, args, Token.spacedSymbol, left.count, right.count]
  | hasText c value =>
    obtain ⟨legible, count⟩ : Marked (c.tokens d) 0 := Column.marked d (plain _ (by simp [columns]))
    constructor
    · simp +decide [tokens, Token.spacedSymbol, Legible, legible]
    · simp [tokens, args, Token.spacedSymbol, count]
  | and p q left right =>
    have both := (left fun c member => plain c (by simp [columns, member])).connect
      (show isWord "AND" = true by decide) (right fun c member => plain c (by simp [columns, member]))
    simpa [tokens, args] using both
  | or p q left right =>
    have both := (left fun c member => plain c (by simp [columns, member])).connect
      (show isWord "OR" = true by decide) (right fun c member => plain c (by simp [columns, member]))
    simpa [tokens, args] using both
  | group p ih => exact (ih plain).bracketedSpaced
  | inSelect lhs selected source p ih =>
    exact (ih fun c member => plain c (by simp [columns, member])).inSelect d source
      (plain lhs (by simp [columns])) (plain selected (by simp [columns]))

/-- The tokens of a frame before its hole. -/
def Frame.lead : Frame → List Token
  | .select lhs selected source =>
    lhs.tokens d ++ Token.spaced "IN" ++ [.symbol "(", .space, .word "SELECT", .space] ++
      selected.tokens d ++ Token.spaced "FROM" ++ [.name d source] ++ Token.spaced "WHERE" ++
      [.symbol "(", .space]
  | .also _ => []

/-- The tokens of a frame behind its hole. -/
def Frame.trail : Frame → List Token
  | .select _ _ _ => [.space, .symbol ")", .space, .symbol ")"]
  | .also q => Token.spaced "AND" ++ q.tokens d

theorem Frame.fillTokens_eq (frame : Frame) (ts : List Token) :
    frame.fillTokens d ts = frame.lead d ++ ts ++ frame.trail d := by
  cases frame <;>
    simp [fillTokens, lead, trail, inSelectTokens, connectTokens, Token.bracketedSpaced]

/-- A frame that binds nothing adds no placeholder. -/
theorem Frame.marked {frame : Frame} (plain : ∀ c ∈ frame.columns, c.Plain)
    (unbound : frame.args = []) {ts : List Token} {n : Nat} (inner : Marked ts n) :
    Marked (frame.fillTokens d ts) n := by
  cases frame with
  | select lhs selected source =>
    exact inner.inSelect d source (plain lhs (by simp [columns])) (plain selected (by simp [columns]))
  | also q =>
    have none : q.args = [] := unbound
    have other := Predicate.marked d (p := q) plain
    rw [none] at other
    exact inner.connect (by decide) other

/-- Tokens that may stand between any pieces. -/
def Separator (between : List Token) : Prop :=
  ∀ {ps qs : List Token} {m n : Nat}, Marked ps m → Marked qs n → Marked (ps ++ between ++ qs) (m + n)

theorem separator_spaced {w : String} (word : isWord w = true) : Separator (Token.spaced w) :=
  fun left right => left.connect word right

theorem separator_space : Separator [.space] := by
  intro ps qs m n left right
  constructor
  · simp [left.legible, right.legible]
  · simp [left.count, right.count]

theorem separator_comma : Separator Token.comma := by
  intro ps qs m n left right
  constructor
  · simp +decide [Token.comma, left.legible, right.legible]
  · simp [Token.comma, left.count, right.count]

/-- Joined pieces have the placeholders of all of them. -/
theorem marked_joined {α : Type} {between : List Token} (separator : Separator between)
    (write : α → List Token) (args : α → List Value) {xs : List α}
    (each : ∀ x ∈ xs, Marked (write x) (args x).length) :
    Marked (Token.joined between (xs.map write)) (xs.flatMap args).length := by
  induction xs with
  | nil => exact ⟨trivial, rfl⟩
  | cons x xs ih =>
    have first := each x (by simp)
    have rest := ih fun y member => each y (by simp [member])
    cases xs with
    | nil => simpa [Token.joined] using first
    | cons y ys =>
      have both := separator first rest
      simpa [Token.joined, List.intercalate_cons_cons] using both

theorem marked_joined_zero {α : Type} {between : List Token} (separator : Separator between)
    (write : α → List Token) {xs : List α} (each : ∀ x ∈ xs, Marked (write x) 0) :
    Marked (Token.joined between (xs.map write)) 0 := by
  have joined := marked_joined separator write (fun _ => []) each
  rwa [List.flatMap_eq_nil_iff.mpr fun _ _ => rfl] at joined

/-- Conditions with a connective between them have the placeholders of all of them. -/
theorem marked_connected {w : String} (word : isWord w = true) {ps : List Predicate}
    (plain : ∀ p ∈ ps, p.Plain) : Marked (connectedTokens d w ps) (argsOf ps).length :=
  marked_joined (separator_spaced word) _ _ fun p member => Predicate.marked d (plain p member)

/-- A joined table whose columns are plain. -/
structure JoinStep.Plain (j : JoinStep) : Prop where
  left : j.left.Plain
  right : j.right.Plain
  discriminator : ∀ x ∈ j.discriminator, x.column.Plain

theorem JoinStep.plain_of (type : JoinType) (table base localKey other foreignKey : String) :
    JoinStep.Plain { type, table, left := .of base localKey, right := .of other foreignKey } :=
  ⟨Column.plain_of _ _, Column.plain_of _ _, by simp⟩

theorem JoinStep.marked {j : JoinStep} (plain : j.Plain) : Marked (j.tokens d) 0 := by
  obtain ⟨type, table, left, right, discriminator⟩ := j
  have on : Marked ((Predicate.sameColumn left right).tokens d) 0 := by
    apply Predicate.marked d
    intro c member
    simp only [Predicate.columns, List.mem_cons, List.not_mem_nil, or_false] at member
    rcases member with rfl | rfl
    · exact plain.left
    · exact plain.right
  -- The words of the join, its table and `ON` may stand before any condition.
  have behind : ∀ {ts : List Token} {n : Nat}, Marked ts n →
      Marked (Token.words type.words ++ [.space, .name d table] ++ Token.spaced "ON" ++ ts) n := by
    intro ts n condition
    constructor
    · cases type <;>
        simp +decide [Token.words, JoinType.words, Token.spaced, Legible, condition.legible]
    · cases type <;> simp +decide [Token.words, JoinType.words, Token.spaced, condition.count]
  cases discriminator with
  | none => exact behind on
  | some x =>
    have type : Marked (x.predicate.tokens d) 0 := by
      apply Predicate.marked d
      intro c member
      simp only [Discriminator.predicate, Predicate.columns, List.mem_singleton] at member
      exact member ▸ plain.discriminator x rfl
    exact behind (on.connect (show isWord "AND" = true by decide) type)

theorem JoinClause.marked {clause : JoinClause} (plain : ∀ j ∈ clause, j.Plain) :
    Marked (clause.tokens d) 0 :=
  marked_joined_zero separator_space _ fun j member => JoinStep.marked d (plain j member)

/-- Joins may stand behind anything. -/
theorem marked_clauses {ts : List Token} {n : Nat} (marked : Marked ts n) {clauses : List JoinClause}
    (plain : ∀ clause ∈ clauses, ∀ j ∈ clause, j.Plain) :
    Marked (ts ++ clauses.flatMap (fun clause => .space :: clause.tokens d)) n := by
  induction clauses generalizing ts with
  | nil => simpa using marked
  | cons clause clauses ih =>
    have both := separator_space marked (JoinClause.marked d (plain clause (by simp)))
    have rest := ih both fun other member => plain other (by simp [member])
    simpa using rest

theorem SelectItem.marked {s : SelectItem} (plain : s.expr.source.Plain) : Marked (s.tokens d) 0 := by
  obtain ⟨expr⟩ := s
  obtain ⟨legible, count⟩ := Expr.marked d plain
  cases expr with
  | column c => exact ⟨legible, count⟩
  | jsonText c keys | language c code =>
    constructor
    · simp +decide [SelectItem.tokens, Token.spaced, Legible, legible]
    · simp [SelectItem.tokens, Token.spaced, count]

/-- A key whose column is plain, or a name as it stands without quotes and placeholders. -/
def OrderKey.Plain : OrderKey → Prop
  | .expr e => e.source.Plain
  | .verbatim name => (Token.word name).regular = true

theorem OrderTerm.marked {t : OrderTerm} (plain : t.key.Plain) : Marked (t.tokens d) 0 := by
  obtain ⟨key, direction⟩ := t
  have first : Marked (key.tokens d) 0 := by
    cases key with
    | expr e => exact Expr.marked d plain
    | verbatim name => exact ⟨plain, rfl⟩
  constructor
  · cases direction <;> simp +decide [OrderTerm.tokens, Direction.name, Legible, first.legible]
  · cases direction <;> simp +decide [OrderTerm.tokens, Direction.name, first.count]

theorem marked_order {terms : List OrderTerm} (plain : ∀ t ∈ terms, t.key.Plain) :
    Marked (orderTokens d terms) 0 :=
  marked_joined_zero separator_comma _ fun t member => OrderTerm.marked d (plain t member)

end Pieces

end RowQuery.Sql

namespace RowQuery.Compile

open RowQuery.Sql

/-- A search has the placeholders of its alternatives. -/
theorem SearchPart.marked (d : Dialect) {part : SearchPart} (plain : ∀ p ∈ part.alternatives, p.Plain) :
    Marked (part.tokens d) part.args.length := by
  have all := marked_connected d (show isWord "OR" = true by decide) plain
  unfold SearchPart.tokens
  split
  · exact all.bracketed
  · exact all

namespace Compiled

/-- A compiled query all of whose parts are plain. -/
structure Plain (q : Compiled) : Prop where
  filters : ∀ p ∈ q.filters, p.Plain
  search : ∀ p ∈ q.search, p.Plain
  discriminators : ∀ x ∈ q.discriminators, x.predicate.Plain
  order : ∀ t ∈ q.order, t.key.Plain
  select : ∀ s ∈ q.select, s.expr.source.Plain
  joins : ∀ clause ∈ q.joins, ∀ j ∈ clause, j.Plain

variable {q : Compiled}

theorem marked_filters (plain : q.Plain) :
    Marked (connectedTokens q.style "AND" q.filters) (argsOf q.filters).length :=
  marked_connected q.style (by decide) plain.filters

theorem marked_search (plain : q.Plain) :
    Marked (SearchPart.tokens q.style ⟨q.search, []⟩) (argsOf q.search).length :=
  SearchPart.marked q.style plain.search

/-- The conditions that all have to hold, each with the values that are bound in it. -/
def boundConditions (q : Compiled) : List (List Token × List Value) :=
  (if q.filters.isEmpty then []
    else [(Token.bracketed (connectedTokens q.style "AND" q.filters), argsOf q.filters)]) ++
    (if q.search.isEmpty then []
      else [(SearchPart.tokens q.style ⟨q.search, []⟩, argsOf q.search)]) ++
    q.discriminators.map fun x => (x.predicate.tokens q.joinStyle, [])

theorem map_boundConditions (q : Compiled) : q.boundConditions.map (·.1) = q.conditionTokens := by
  unfold boundConditions conditionTokens
  split <;> split <;> simp

theorem flatMap_boundConditions (q : Compiled) : q.boundConditions.flatMap (·.2) = q.args := by
  unfold boundConditions args
  rw [List.flatMap_append, List.flatMap_append, List.flatMap_map]
  have none : (q.discriminators.flatMap fun _ => ([] : List Value)) = [] := by simp
  simp only [none]
  cases q.filters <;> cases q.search <;> simp [argsOf]

/-- The condition has a placeholder for each value of the filters and of the search. -/
theorem marked_where (plain : q.Plain) : Marked q.whereTokens q.args.length := by
  have each : ∀ x ∈ q.boundConditions, Marked x.1 x.2.length := by
    intro x member
    simp only [boundConditions, List.mem_append, List.mem_map] at member
    rcases member with (member | member) | ⟨y, member, rfl⟩
    · split at member
      · cases member
      · cases List.mem_singleton.mp member
        exact (marked_filters plain).bracketed
    · split at member
      · cases member
      · cases List.mem_singleton.mp member
        exact marked_search plain
    · exact Predicate.marked q.joinStyle (plain.discriminators y member)
  have joined := marked_joined (separator_spaced (show isWord "AND" = true by decide))
    Prod.fst Prod.snd each
  rwa [map_boundConditions, flatMap_boundConditions] at joined

/-- The condition is read as its parts with `AND` between them. -/
theorem lex_where (plain : q.Plain) (backslash : Bool) :
    lex backslash q.whereText =
      [Lexeme.word "AND"].intercalate (q.conditionTokens.map (lexemes backslash)) := by
  rw [whereText, lex_print (marked_where plain).legible, whereTokens, lexemes_joined (by decide)]

theorem lex_discriminators (plain : q.Plain) (backslash : Bool) :
    q.discriminators.map (fun x => lex backslash (x.predicate.text q.joinStyle)) =
      (q.discriminators.map fun x => x.predicate.tokens q.joinStyle).map (lexemes backslash) := by
  rw [List.map_map]
  apply List.map_congr_left
  intro x member
  exact lex_print (Predicate.marked q.joinStyle (plain.discriminators x member)).legible

/-- The tokens of the table and its joins, up to the condition. -/
def sourceTokens (q : Compiled) : List Token :=
  [.word "FROM", .space, .name q.style q.table] ++
    q.joins.flatMap (fun clause => .space :: clause.tokens q.joinStyle) ++
    (if q.conditionTokens.isEmpty then [] else Token.spaced "WHERE")

/-- The tokens of the order, with the keyword before them. -/
def orderingTokens (q : Compiled) : List Token :=
  if q.order.isEmpty then []
  else [.space] ++ Token.words ["ORDER", "BY"] ++ [.space] ++ orderTokens q.style q.order

theorem fromTokens_eq (q : Compiled) : q.fromTokens = q.sourceTokens ++ q.whereTokens := by
  unfold fromTokens sourceTokens
  cases none : q.conditionTokens with
  | nil => simp [whereTokens, none, Token.joined]
  | cons first rest => simp

/-- A statement is what stands before its condition, the condition, the order and the page. -/
theorem statementTokens_eq (q : Compiled) :
    q.statementTokens = ([.word "SELECT", .space] ++ q.projectionTokens ++ [.space] ++ q.sourceTokens) ++
      q.whereTokens ++ q.orderingTokens ++ q.pageTokens := by
  simp [statementTokens, fromTokens_eq, orderingTokens]

/-- The statement that counts rows ends in the condition. -/
theorem countTokens_eq (q : Compiled) (key : String) :
    ∃ lead, q.countTokens key = lead ++ q.whereTokens :=
  ⟨_, by rw [countTokens, fromTokens_eq, ← List.append_assoc]⟩

theorem marked_projection (plain : ∀ s ∈ q.select, s.expr.source.Plain) : Marked q.projectionTokens 0 := by
  unfold projectionTokens
  split
  · exact marked_joined_zero separator_comma _
      fun s member => SelectItem.marked q.style (plain s member)
  · split
    · exact ⟨rfl, rfl⟩
    · constructor <;> simp +decide [Legible]

theorem marked_from (plain : q.Plain) : Marked q.fromTokens q.args.length := by
  have table : Marked [.word "FROM", .space, .name q.style q.table] 0 := by
    constructor <;> simp +decide [Legible]
  have joined := marked_clauses q.joinStyle table plain.joins
  unfold fromTokens
  split
  case isTrue none =>
    have unbound : q.args = [] := by
      have empty : q.boundConditions = [] := by
        simpa [← map_boundConditions] using none
      rw [← flatMap_boundConditions, empty, List.flatMap_nil]
    rw [unbound]
    simpa using joined
  case isFalse some =>
    have both := separator_spaced (show isWord "WHERE" = true by decide) joined (marked_where plain)
    simpa using both

theorem marked_ordering (plain : q.Plain) {ts : List Token} {n : Nat} (marked : Marked ts n) :
    Marked (ts ++ q.orderingTokens) n := by
  unfold orderingTokens
  split
  · simpa using marked
  · have order := marked_order q.style plain.order
    constructor
    · simp +decide [Token.words, Legible, marked.legible, order.legible]
    · simp [Token.words, marked.count, order.count]

theorem marked_page {ts : List Token} {n : Nat} (marked : Marked ts n) :
    Marked (ts ++ q.pageTokens) (n + q.pageArgs.length) := by
  unfold pageTokens pageArgs
  split
  · split
    · constructor
      · simp +decide [Token.spaced, Legible, marked.legible]
      · simp [Token.spaced, marked.count]
    · constructor
      · simp +decide [Token.spaced, Legible, marked.legible]
      · simp [Token.spaced, marked.count]
  · simpa using marked

/-- A statement has a placeholder for each value that is bound in it. -/
theorem marked_statement (plain : q.Plain) :
    Marked q.statementTokens (q.args ++ q.pageArgs).length := by
  have select : Marked [.word "SELECT"] 0 := ⟨rfl, rfl⟩
  have projected := separator_space select (marked_projection plain.select)
  have ordered := marked_ordering plain (separator_space projected (marked_from plain))
  have paged := marked_page (q := q) ordered
  simpa [statementTokens, orderingTokens] using paged

/-- The statement that counts rows has a placeholder for each value of the condition. -/
theorem marked_count (plain : q.Plain) (key : String) :
    Marked (q.countTokens key) q.args.length := by
  have star : Marked [.symbol "*"] 0 := ⟨rfl, rfl⟩
  have distinct : Marked ([.word "DISTINCT", .space] ++ (Column.of q.table key).tokens q.style) 0 := by
    constructor <;> simp +decide [Column.of, Column.tokens, Legible]
  have counted : Marked (if q.joins.isEmpty then [.symbol "*"]
      else [.word "DISTINCT", .space] ++ (Column.of q.table key).tokens q.style) 0 := by
    split
    · exact star
    · exact distinct
  have head : Marked ([.word "SELECT", .space, .word "COUNT"] ++ Token.bracketed
      (if q.joins.isEmpty then [.symbol "*"]
        else [.word "DISTINCT", .space] ++ (Column.of q.table key).tokens q.style)) 0 := by
    constructor
    · simpa +decide [Token.bracketed, Legible] using counted.legible
    · simpa [Token.bracketed] using counted.count
  simpa [countTokens] using separator_space head (marked_from plain)

end Compiled

end RowQuery.Compile
