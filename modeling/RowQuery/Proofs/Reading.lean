import RowQuery.Proofs.Legibility

/-!
# Reading conditions back

A reader of conditions, in which `AND` binds tighter than `OR` and brackets bind tightest, takes
lexemes and the values that are bound to their placeholders. `read_text` says that the text and the
values of a condition in standard form are read as this very condition, so nothing in it is ambiguous
and no value takes the place of another.
-/

namespace RowQuery.Sql

/-! ## The reader -/

/-- The dotted keys that a path into JSON follows. -/
def keysOfPath (path : String) : Option String :=
  match path.toList with
  | '$' :: '.' :: keys => some (String.ofList keys)
  | _ => none

/-- A text without the backslashes before its double quotes. -/
def dropEscapes : List Char → List Char
  | '\\' :: '"' :: cs => '"' :: dropEscapes cs
  | c :: cs => c :: dropEscapes cs
  | [] => []

/-- The language whose member a path into JSON selects. -/
def languageOfPath (path : String) : Option String :=
  match path.toList with
  | '$' :: '.' :: '"' :: cs => some (String.ofList (dropEscapes cs.dropLast))
  | _ => none

/-- Reads a column, and gives what follows it. -/
def readColumn : List Lexeme → Option (Column × List Lexeme)
  | .word name :: ls => some ({ table := none, name, bare := true }, ls)
  | .quoted q s :: ls =>
    if q = '\'' then none
    else match ls with
      | .symbol '.' :: .word name :: ls => some ({ table := some s, name, bare := true }, ls)
      | .symbol '.' :: .quoted r name :: ls => if r = '\'' then none else some (.of s name, ls)
      | ls => some ({ table := none, name := s }, ls)
  | _ => none

/-- Reads an expression. -/
def readExpr : List Lexeme → Option (Expr × List Lexeme)
  | .word "CAST" :: .symbol '(' :: ls => do
    match ← readColumn ls with
    | (c, .symbol '-' :: .symbol '>' :: .quoted '\'' path :: .word "AS" :: .word "CHAR" ::
        .symbol ')' :: ls) => return (.jsonText c (← keysOfPath path), ls)
    | _ => none
  | .word "JSON_UNQUOTE" :: .symbol '(' :: .word "JSON_EXTRACT" :: .symbol '(' :: ls => do
    match ← readColumn ls with
    | (c, .symbol ',' :: .quoted '\'' path :: .symbol ')' :: .symbol ')' :: ls) =>
      return (.language c (← languageOfPath path), ls)
    | _ => none
  | ls => do
    let (c, ls) ← readColumn ls
    return (.column c, ls)

/-- A reader takes lexemes and values, and gives what follows both. -/
abbrev Reader (α : Type) := List Lexeme → List Value → Option (α × List Lexeme × List Value)

/-- Reads the placeholders of a list, up to the bracket behind it. -/
def readValues : Reader (List Value)
  | .symbol '?' :: .symbol ')' :: ls, v :: vs => some ([v], ls, vs)
  | .symbol '?' :: .symbol ',' :: ls, v :: vs => do
    let (rest, ls, vs) ← readValues ls vs
    return (v :: rest, ls, vs)
  | _, _ => none

/-- Reads what a column is equal to: a value, a literal or another column. -/
def readEquation (e : Expr) : Reader Predicate
  | .symbol '?' :: ls, v :: vs => some (.test e (.compare .equal v), ls, vs)
  | .quoted '\'' s :: ls, vs =>
    match e with
    | .column a => some (.hasText a s, ls, vs)
    | _ => none
  | ls, vs =>
    match e with
    | .column a => do
      let (b, ls) ← readColumn ls
      return (.sameColumn a b, ls, vs)
    | _ => none

/-- Reads a subselect behind its first keyword. Its condition is read by `inner`. -/
def readSelect (inner : Reader Predicate) (lhs : Column) : Reader Predicate := fun ls vs => do
  match ← readColumn ls with
  | (selected, .word "FROM" :: .quoted _ source :: .word "WHERE" :: .symbol '(' :: ls) =>
    match ← inner ls vs with
    | (p, .symbol ')' :: .symbol ')' :: ls, vs) => some (.inSelect lhs selected source p, ls, vs)
    | _ => none
  | _ => none

/-- Reads what is said of an expression. -/
def readTest (inner : Reader Predicate) (e : Expr) : Reader Predicate
  | .word "IS" :: .word "NULL" :: ls, vs => some (.test e .isNull, ls, vs)
  | .word "IS" :: .word "NOT" :: .word "NULL" :: ls, vs => some (.test e .isNotNull, ls, vs)
  | .word "IN" :: .symbol '(' :: .word "SELECT" :: ls, vs =>
    match e with
    | .column lhs => readSelect inner lhs ls vs
    | _ => none
  | .word "IN" :: .symbol '(' :: ls, vs => do
    let (values, ls, vs) ← readValues ls vs
    return (.test e (.oneOf values), ls, vs)
  | .word "LIKE" :: .symbol '?' :: ls, v :: vs => some (.test e (.compare .like v), ls, vs)
  | .symbol '<' :: .symbol '>' :: .symbol '?' :: ls, v :: vs =>
    some (.test e (.compare .notEqual v), ls, vs)
  | .symbol '<' :: .symbol '=' :: .symbol '?' :: ls, v :: vs =>
    some (.test e (.compare .lessEqual v), ls, vs)
  | .symbol '<' :: .symbol '?' :: ls, v :: vs => some (.test e (.compare .less v), ls, vs)
  | .symbol '>' :: .symbol '=' :: .symbol '?' :: ls, v :: vs =>
    some (.test e (.compare .greaterEqual v), ls, vs)
  | .symbol '>' :: .symbol '?' :: ls, v :: vs => some (.test e (.compare .greater v), ls, vs)
  | .symbol '=' :: ls, vs => readEquation e ls vs
  | _, _ => none

/-- Reads what is asked of the texts of a translated column. -/
def readAnyLanguage (c : Column) : Reader Predicate
  | .symbol ',' :: .quoted '\'' "one" :: .symbol ',' :: .symbol '?' :: .symbol ')' :: .word "IS" ::
      .word "NOT" :: .word "NULL" :: ls, .str pattern :: vs => some (.anyLanguage c true pattern, ls, vs)
  | .symbol ',' :: .quoted '\'' "one" :: .symbol ',' :: .symbol '?' :: .symbol ')' :: .word "IS" ::
      .word "NULL" :: ls, .str pattern :: vs => some (.anyLanguage c false pattern, ls, vs)
  | _, _ => none

/-- Reads a condition without connectives outside of brackets, inside of which `inner` reads. -/
def readAtom (inner : Reader Predicate) : Reader Predicate
  | .symbol '(' :: ls, vs => do
    match ← inner ls vs with
    | (p, .symbol ')' :: ls, vs) => some (.group p, ls, vs)
    | _ => none
  | .word "JSON_SEARCH" :: .symbol '(' :: ls, vs => do
    let (c, ls) ← readColumn ls
    readAnyLanguage c ls vs
  | ls, vs => do
    let (e, ls) ← readExpr ls
    readTest inner e ls vs

/-- Goes on with a conjunction as long as there are more conjuncts. -/
def readConjuncts (atom : Reader Predicate) : (fuel : Nat) → Predicate → Reader Predicate
  | fuel + 1, p, .word "AND" :: ls, vs => do
    let (q, ls, vs) ← atom ls vs
    readConjuncts atom fuel (.and p q) ls vs
  | _, p, ls, vs => some (p, ls, vs)

/-- Reads a conjunction. -/
def readConjunction (inner : Reader Predicate) (fuel : Nat) : Reader Predicate := fun ls vs => do
  let (p, ls, vs) ← readAtom inner ls vs
  readConjuncts (readAtom inner) fuel p ls vs

/-- Reads a condition. The fuel bounds how many parts it may have. -/
def readCondition : (fuel : Nat) → Reader Predicate
  | 0, _, _ => none
  | fuel + 1, ls, vs => do
    match ← readConjunction (readCondition fuel) fuel ls vs with
    | (p, .word "OR" :: ls, vs) => do
      let (q, ls, vs) ← readCondition fuel ls vs
      return (.or p q, ls, vs)
    | other => some other

/-- Reads a text and the values bound in it as a condition. A backslash between single quotes is an
    escape. -/
def read (text : String) (args : List Value) : Option Predicate :=
  let ls := lex true text
  match readCondition ls.length ls args with
  | some (p, [], []) => some p
  | _ => none

/-! ## Columns and expressions -/

theorem keysOfPath_keyPath (keys : String) : keysOfPath (keyPath keys) = some keys := by
  simp [keysOfPath, keyPath, keyPathStart]

/-- Escapes are dropped from exactly where they were put. -/
theorem dropEscapes_escape (cs : List Char) :
    dropEscapes (cs.flatMap fun c => if c = '"' then ['\\', '"'] else [c]) = cs := by
  induction cs with
  | nil => rfl
  | cons c cs ih =>
    rw [List.flatMap_cons]
    by_cases quote : c = '"'
    · simp [quote, dropEscapes, ih]
    · -- Behind a backslash of the text itself no quote stands alone.
      cases cs with
      | nil => simp [quote, dropEscapes]
      | cons d ds =>
        by_cases next : d = '"' <;> simp_all [dropEscapes]

theorem languageOfPath_languagePath (code : String) : languageOfPath (languagePath code) = some code := by
  simp [languageOfPath, languagePath, dropEscapes_escape]

/-- What may stand behind a column: neither a dot nor an opening bracket. -/
def Follows (rest : List Lexeme) : Prop :=
  rest.head? ≠ some (.symbol '.') ∧ rest.head? ≠ some (.symbol '(')

theorem quote_ne_single (d : Dialect) : d.quote ≠ '\'' := by cases d <;> decide

theorem readColumn_tokens {c : Column} (plain : c.Plain) (d : Dialect) {rest : List Lexeme}
    (follows : Follows rest) : readColumn (lexemes true (c.tokens d) ++ rest) = some (c, rest) := by
  obtain ⟨table, name, bare⟩ := c
  have notSingle := quote_ne_single d
  cases bare with
  | true =>
    have word := isWord_of_isIdentifier (plain rfl)
    cases table <;>
      simp [Column.tokens, Token.lexemes_word word, Token.lexemes_name, Token.lexemes_symbol, readColumn,
        notSingle]
  | false =>
    cases table with
    | some t =>
      simp [Column.tokens, Token.lexemes_name, Token.lexemes_symbol, readColumn, notSingle, Column.of]
    | none =>
      simp only [Column.tokens, Bool.false_eq_true, if_false, lexemes_cons, lexemes_nil, Token.lexemes_name,
        List.append_nil, List.cons_append, List.nil_append, readColumn, notSingle]
      split
      · simp [Follows] at follows
      · simp [Follows] at follows
      · rfl

/-- A column is one word, or starts with a quoted name. -/
theorem lexemes_column {c : Column} (plain : c.Plain) (d : Dialect) :
    (∃ w, lexemes true (c.tokens d) = [.word w]) ∨
      ∃ s ls, lexemes true (c.tokens d) = .quoted d.quote s :: ls := by
  obtain ⟨table, name, bare⟩ := c
  cases table with
  | some t => exact .inr ⟨t, _, rfl⟩
  | none =>
    cases bare with
    | false => exact .inr ⟨name, [], rfl⟩
    | true =>
      refine .inl ⟨name, ?_⟩
      simp [Column.tokens, Token.lexemes_word (isWord_of_isIdentifier (plain rfl))]

/-- No column is taken for the name of a function. -/
theorem column_ne_call {c : Column} (plain : c.Plain) (d : Dialect) {rest ls : List Lexeme} {w : String}
    (follows : Follows rest) :
    lexemes true (c.tokens d) ++ rest ≠ .word w :: .symbol '(' :: ls := by
  intro same
  rcases lexemes_column plain d with ⟨name, word⟩ | ⟨s, more, quoted⟩
  · rw [word] at same
    simp only [List.cons_append, List.nil_append, List.cons.injEq] at same
    simp [Follows, same.2] at follows
  · simp [quoted] at same

theorem column_ne_symbol {c : Column} (plain : c.Plain) (d : Dialect) {rest ls : List Lexeme} {x : Char} :
    lexemes true (c.tokens d) ++ rest ≠ .symbol x :: ls := by
  rcases lexemes_column plain d with ⟨name, word⟩ | ⟨s, more, quoted⟩
  · simp [word]
  · simp [quoted]

theorem column_ne_literal {c : Column} (plain : c.Plain) (d : Dialect) {rest ls : List Lexeme}
    {s : String} : lexemes true (c.tokens d) ++ rest ≠ .quoted '\'' s :: ls := by
  rcases lexemes_column plain d with ⟨name, word⟩ | ⟨s, more, quoted⟩
  · simp [word]
  · simp [quoted, quote_ne_single d]

theorem readExpr_column {c : Column} (plain : c.Plain) (d : Dialect) {rest : List Lexeme}
    (follows : Follows rest) :
    readExpr (lexemes true (c.tokens d) ++ rest) = some (.column c, rest) := by
  have column := readColumn_tokens plain d follows
  unfold readExpr
  split
  case h_1 same => exact absurd same (column_ne_call plain d follows)
  case h_2 same => exact absurd same (column_ne_call plain d follows)
  case h_3 => simp [column]

theorem readExpr_tokens {e : Expr} (plain : e.source.Plain) (d : Dialect) {rest : List Lexeme}
    (follows : Follows rest) : readExpr (lexemes true (e.tokens d) ++ rest) = some (e, rest) := by
  cases e with
  | column c => exact readExpr_column plain d follows
  | jsonText c keys =>
    have tokens : lexemes true ((Expr.jsonText c keys).tokens d) ++ rest =
        .word "CAST" :: .symbol '(' :: (lexemes true (c.tokens d) ++
          (.symbol '-' :: .symbol '>' :: .quoted '\'' (keyPath keys) :: .word "AS" :: .word "CHAR" ::
            .symbol ')' :: rest)) := by
      simp +decide [Expr.tokens, jsonTextTokens, lexemes_spaced, Token.lexemes_word,
        Token.lexemes_symbol, Token.lexemes_literal]
    have plain : c.Plain := plain
    rw [tokens, readExpr, readColumn_tokens plain d]
    · simp [keysOfPath_keyPath]
    · simp [Follows]
  | language c code =>
    have tokens : lexemes true ((Expr.language c code).tokens d) ++ rest =
        .word "JSON_UNQUOTE" :: .symbol '(' :: .word "JSON_EXTRACT" :: .symbol '(' ::
          (lexemes true (c.tokens d) ++
            (.symbol ',' :: .quoted '\'' (languagePath code) :: .symbol ')' :: .symbol ')' :: rest)) := by
      simp +decide [Expr.tokens, languageTokens, Token.comma, Token.lexemes_word, Token.lexemes_symbol,
        Token.lexemes_literal]
    have plain : c.Plain := plain
    rw [tokens, readExpr, readColumn_tokens plain d]
    · simp [languageOfPath_languagePath]
    · simp [Follows]

/-! ## Tests -/

/-- A test that compares with at least one value. -/
def Test.Standard : Test → Prop
  | .oneOf values => values ≠ []
  | _ => True

theorem readValues_tokens {values : List Value} (some : values ≠ []) (rest : List Lexeme)
    (more : List Value) :
    readValues (lexemes true ((values.map fun _ => Token.placeholder).intersperse (.symbol ",")) ++
      .symbol ')' :: rest) (values ++ more) = Option.some (values, rest, more) := by
  induction values with
  | nil => exact absurd rfl some
  | cons v vs ih =>
    cases vs with
    | nil => simp [readValues]
    | cons w ws =>
      have later := ih (by simp)
      simp only [List.map_cons, List.intersperse_cons_cons, lexemes_cons, Token.lexemes_placeholder,
        Token.lexemes_symbol, List.cons_append] at later ⊢
      generalize lexemes true (List.intersperse (.symbol ",") (Token.placeholder :: ws.map _)) = list
        at later ⊢
      simp [readValues, later]

theorem readTest_tokens {t : Test} (standard : t.Standard) (inner : Reader Predicate) (e : Expr)
    {rest : List Lexeme} {more : List Value} :
    readTest inner e (lexemes true t.tokens ++ rest) (t.args ++ more) =
      some (.test e t, rest, more) := by
  cases t with
  | compare op v =>
    cases op <;>
      simp +decide [Test.tokens, Test.args, Comparison.token, Token.lexemes_word, Token.lexemes_symbol,
        readTest, readEquation]
  | isNull => simp +decide [Test.tokens, Test.args, Token.words, Token.lexemes_word, readTest]
  | isNotNull => simp +decide [Test.tokens, Test.args, Token.words, Token.lexemes_word, readTest]
  | oneOf values =>
    have tokens : lexemes true (Test.oneOf values).tokens ++ rest =
        .word "IN" :: .symbol '(' ::
          (lexemes true ((values.map fun _ => Token.placeholder).intersperse (.symbol ",")) ++
            .symbol ')' :: rest) := by
      simp +decide [Test.tokens, Token.bracketed, Token.lexemes_word, Token.lexemes_symbol]
    have read := readValues_tokens standard rest more
    -- The list starts with a placeholder, so it is no subselect.
    obtain ⟨ls, starts⟩ : ∃ ls, lexemes true
        ((values.map fun _ => Token.placeholder).intersperse (.symbol ",")) ++ .symbol ')' :: rest =
          .symbol '?' :: ls := by
      cases values with
      | nil => exact absurd rfl standard
      | cons v vs => cases vs <;> simp
    rw [starts] at tokens read
    rw [tokens]
    simp [readTest, Test.args, read]

theorem follows_test (t : Test) (rest : List Lexeme) : Follows (lexemes true t.tokens ++ rest) := by
  cases t with
  | compare op v =>
    cases op <;> simp +decide [Test.tokens, Comparison.token, Follows, Token.lexemes_word, Token.lexemes_symbol]
  | _ => simp +decide [Test.tokens, Token.words, Follows, Token.lexemes_word]

/-! ## Connectives and brackets -/

namespace Predicate

/-- Whether a condition has no connective outside of brackets. -/
def isAtomic : Predicate → Bool
  | .and _ _ | .or _ _ => false
  | _ => true

/-- Whether a condition is a disjunction. -/
def isOr : Predicate → Bool
  | .or _ _ => true
  | _ => false

/-- A condition that brackets alone give its shape: no disjunction is a part of a conjunction, no
    conjunction its right part, and no disjunction the left part of another. -/
def Standard : Predicate → Prop
  | .test _ t => t.Standard
  | .anyLanguage _ _ _ | .sameColumn _ _ | .hasText _ _ => True
  | .and p q => p.isOr = false ∧ q.isAtomic = true ∧ p.Standard ∧ q.Standard
  | .or p q => p.isOr = false ∧ p.Standard ∧ q.Standard
  | .group p => p.Standard
  | .inSelect _ _ _ p => p.Standard

/-- The number of parts of a condition. -/
def size : Predicate → Nat
  | .and p q => p.size + q.size + 1
  | .or p q => p.size + q.size + 1
  | .group p => p.size + 1
  | .inSelect _ _ _ p => p.size + 1
  | _ => 1

/-- How many conjuncts a condition has behind its first. -/
def links : Predicate → Nat
  | .and p _ => p.links + 1
  | _ => 0

theorem links_lt_size (p : Predicate) : p.links < p.size := by
  induction p with
  | and p q left right => simp only [links, size]; omega
  | _ => simp [links, size]

theorem links_of_isAtomic {p : Predicate} (atomic : p.isAtomic = true) : p.links = 0 := by
  cases p <;> first | rfl | cases atomic

end Predicate

/-- What may stand behind a whole condition: nothing, or a closing bracket. -/
def Closes (rest : List Lexeme) : Prop := rest = [] ∨ ∃ ls, rest = .symbol ')' :: ls

theorem Closes.follows {rest : List Lexeme} (closes : Closes rest) : Follows rest := by
  rcases closes with rfl | ⟨ls, rfl⟩ <;> simp [Follows]

theorem closes_bracket (ls : List Lexeme) : Closes (.symbol ')' :: ls) := .inr ⟨ls, rfl⟩

/-- Lexemes and values that are read as a condition without connectives. -/
def AtomReads (ls : List Lexeme) (vs : List Value) (p : Predicate) : Prop :=
  ∀ fuel rest more, p.size ≤ fuel + 1 → Follows rest →
    readAtom (readCondition fuel) (ls ++ rest) (vs ++ more) = some (p, rest, more)

/-- Lexemes and values that are read as a conjunction, with which it may still go on. -/
def ChainReads (ls : List Lexeme) (vs : List Value) (p : Predicate) : Prop :=
  ∀ fuel k rest more, p.size ≤ fuel + 1 → p.links ≤ k → Follows rest →
    readConjunction (readCondition fuel) k (ls ++ rest) (vs ++ more) =
      readConjuncts (readAtom (readCondition fuel)) (k - p.links) p rest more

/-- Lexemes and values that are read as a whole condition. -/
def Reads (ls : List Lexeme) (vs : List Value) (p : Predicate) : Prop :=
  ∀ fuel rest more, p.size ≤ fuel → Closes rest →
    readCondition fuel (ls ++ rest) (vs ++ more) = some (p, rest, more)

section Reads

variable {ls ms : List Lexeme} {vs ws : List Value} {p q : Predicate}

theorem AtomReads.chain (atomic : p.isAtomic = true) (reads : AtomReads ls vs p) :
    ChainReads ls vs p := by
  intro fuel k rest more enough _ follows
  rw [Predicate.links_of_isAtomic atomic]
  simp [readConjunction, reads fuel rest more enough follows]

theorem ChainReads.and (first : ChainReads ls vs p) (second : AtomReads ms ws q) :
    ChainReads (ls ++ .word "AND" :: ms) (vs ++ ws) (.and p q) := by
  intro fuel k rest more enough links follows
  simp only [Predicate.size, Predicate.links] at enough links ⊢
  obtain ⟨j, left⟩ : ∃ j, k - p.links = j + 1 := ⟨k - p.links - 1, by omega⟩
  rw [List.append_assoc, List.append_assoc,
    first fuel k _ _ (by omega) (by omega) (by simp [Follows]), left, List.cons_append, readConjuncts,
    second fuel rest more (by omega) follows]
  have same : k - (p.links + 1) = j := by omega
  simp [same]

theorem readConjuncts_closes (atom : Reader Predicate) (k : Nat) (p : Predicate) {rest : List Lexeme}
    (more : List Value) (closes : Closes rest) :
    readConjuncts atom k p rest more = some (p, rest, more) := by
  rcases closes with rfl | ⟨ls, rfl⟩ <;> cases k <;> rfl

theorem ChainReads.whole (reads : ChainReads ls vs p) : Reads ls vs p := by
  intro fuel rest more enough closes
  have links := p.links_lt_size
  obtain ⟨n, rfl⟩ : ∃ n, fuel = n + 1 := ⟨fuel - 1, by omega⟩
  rw [readCondition, reads n n rest more (by omega) (by omega) closes.follows,
    readConjuncts_closes _ _ _ _ closes]
  rcases closes with rfl | ⟨ls, rfl⟩ <;> rfl

theorem ChainReads.or (first : ChainReads ls vs p) (second : Reads ms ws q) :
    Reads (ls ++ .word "OR" :: ms) (vs ++ ws) (.or p q) := by
  intro fuel rest more enough closes
  have links := p.links_lt_size
  simp only [Predicate.size] at enough
  obtain ⟨n, rfl⟩ : ∃ n, fuel = n + 1 := ⟨fuel - 1, by omega⟩
  rw [readCondition, List.append_assoc, List.append_assoc,
    first n n _ _ (by omega) (by omega) (by simp [Follows])]
  have stops : readConjuncts (readAtom (readCondition n)) (n - p.links) p
      (.word "OR" :: ms ++ rest) (ws ++ more) = some (p, .word "OR" :: ms ++ rest, ws ++ more) := by
    cases n - p.links <;> rfl
  rw [stops]
  simp [second n rest more (by omega) closes]

theorem Reads.group (reads : Reads ls vs p) :
    AtomReads (.symbol '(' :: ls ++ [.symbol ')']) vs (.group p) := by
  intro fuel rest more enough _
  simp only [Predicate.size] at enough
  have inside := reads fuel (.symbol ')' :: rest) more (by omega) (closes_bracket rest)
  simp [readAtom, inside]

/-- A column behind an equality is taken for neither a placeholder nor a literal. -/
theorem readEquation_column {b : Column} (plain : b.Plain) (d : Dialect) (a : Column)
    {rest : List Lexeme} (follows : Follows rest) (vs : List Value) :
    readEquation (.column a) (lexemes true (b.tokens d) ++ rest) vs =
      some (.sameColumn a b, rest, vs) := by
  have column := readColumn_tokens plain d follows
  unfold readEquation
  split
  case h_1 same => exact absurd same (column_ne_symbol plain d)
  case h_2 same => exact absurd same (column_ne_literal plain d)
  case h_3 => simp [column]

/-- An expression is read before what is said of it. -/
theorem readAtom_expr {e : Expr} (plain : e.source.Plain) (d : Dialect) (inner : Reader Predicate)
    {rest : List Lexeme} (follows : Follows rest) (vs : List Value) :
    readAtom inner (lexemes true (e.tokens d) ++ rest) vs = readTest inner e rest vs := by
  have expr := readExpr_tokens plain d follows
  unfold readAtom
  split
  case h_1 same =>
    cases e with
    | column c => exact absurd same (column_ne_symbol plain d)
    | jsonText c keys => simp +decide [Expr.tokens, jsonTextTokens, Token.lexemes_word] at same
    | language c code => simp +decide [Expr.tokens, languageTokens, Token.lexemes_word] at same
  case h_2 same =>
    cases e with
    | column c => exact absurd same (column_ne_call plain d follows)
    | jsonText c keys => simp +decide [Expr.tokens, jsonTextTokens, Token.lexemes_word] at same
    | language c code => simp +decide [Expr.tokens, languageTokens, Token.lexemes_word] at same
  case h_3 => simp [expr]

theorem readAtom_column {c : Column} (plain : c.Plain) (d : Dialect) (inner : Reader Predicate)
    {rest : List Lexeme} (follows : Follows rest) (vs : List Value) :
    readAtom inner (lexemes true (c.tokens d) ++ rest) vs = readTest inner (.column c) rest vs :=
  readAtom_expr (e := .column c) plain d inner follows vs

theorem Reads.inSelect {lhs selected : Column} (left : lhs.Plain) (right : selected.Plain)
    (d : Dialect) (source : String) (reads : Reads ls vs p) :
    AtomReads (inSelectLexemes (lexemes true (lhs.tokens d)) (lexemes true (selected.tokens d))
      (.quoted d.quote source) ls) vs (.inSelect lhs selected source p) := by
  intro fuel rest more enough _
  simp only [Predicate.size] at enough
  have inside := reads fuel (.symbol ')' :: .symbol ')' :: rest) more (by omega) (closes_bracket _)
  simp only [inSelectLexemes, List.append_assoc, List.cons_append, List.nil_append]
  rw [readAtom_column left d _ (by simp [Follows]), readTest, readSelect,
    readColumn_tokens right d (by simp [Follows])]
  simp [inside]

end Reads

/-! ## Whole conditions -/

/-- A condition in standard form is read as what it is: as a whole, as a conjunction if it is no
    disjunction, and as an atom if it is one. -/
theorem Predicate.reads {p : Predicate} (d : Dialect) (plain : p.Plain) (standard : p.Standard) :
    Reads (lexemes true (p.tokens d)) p.args p ∧
      (p.isOr = false → ChainReads (lexemes true (p.tokens d)) p.args p) ∧
      (p.isAtomic = true → AtomReads (lexemes true (p.tokens d)) p.args p) := by
  -- It is enough to read atoms as atoms, and the others as what they are.
  have ofAtom : ∀ {p : Predicate}, p.isAtomic = true → AtomReads (lexemes true (p.tokens d)) p.args p →
      Reads (lexemes true (p.tokens d)) p.args p ∧
        (p.isOr = false → ChainReads (lexemes true (p.tokens d)) p.args p) ∧
        (p.isAtomic = true → AtomReads (lexemes true (p.tokens d)) p.args p) :=
    fun atomic atom => ⟨(atom.chain atomic).whole, fun _ => atom.chain atomic, fun _ => atom⟩
  induction p with
  | test lhs t =>
    apply ofAtom rfl
    intro fuel rest more _ _
    have source : lhs.source.Plain := plain _ (by simp [columns])
    rw [tokens, args, lexemes_append, List.append_assoc,
      readAtom_expr source d _ (follows_test t rest), readTest_tokens standard]
  | anyLanguage c found pattern =>
    apply ofAtom rfl
    intro fuel rest more _ _
    have column : c.Plain := plain c (by simp [columns])
    have words : lexemes true (tokens d (.anyLanguage c found pattern)) =
        .word "JSON_SEARCH" :: .symbol '(' :: (lexemes true (c.tokens d) ++ .symbol ',' ::
          .quoted '\'' "one" :: .symbol ',' :: .symbol '?' :: .symbol ')' :: .word "IS" ::
          if found then [.word "NOT", .word "NULL"] else [.word "NULL"]) := by
      cases found <;>
        simp +decide [tokens, Token.comma, Token.words, Token.lexemes_word, Token.lexemes_symbol,
          Token.lexemes_literal]
    rw [words, args]
    simp only [List.append_assoc, List.cons_append, List.nil_append, readAtom]
    rw [readColumn_tokens column d (by simp [Follows])]
    cases found <;> rfl
  | sameColumn a b =>
    apply ofAtom rfl
    intro fuel rest more _ follows
    have left : a.Plain := plain a (by simp [columns])
    have right : b.Plain := plain b (by simp [columns])
    rw [tokens, args, lexemes_append, lexemes_append, List.append_assoc, List.append_assoc,
      readAtom_column left d _ (by simp [Follows, Token.spacedSymbol, Token.lexemes_symbol])]
    simp only [Token.spacedSymbol, lexemes_cons, Token.lexemes_space, Token.lexemes_symbol]
    exact readEquation_column right d a follows more
  | hasText c value =>
    apply ofAtom rfl
    intro fuel rest more _ _
    have column : c.Plain := plain c (by simp [columns])
    rw [tokens, args, lexemes_append, lexemes_append, List.append_assoc, List.append_assoc,
      readAtom_column column d _ (by simp [Follows, Token.spacedSymbol, Token.lexemes_symbol])]
    simp [Token.spacedSymbol, Token.lexemes_symbol, Token.lexemes_literal, readTest, readEquation]
  | and p q left right =>
    obtain ⟨notOr, atomic, first, second⟩ := standard
    have chain := (left (fun c member => plain c (by simp [columns, member])) first).2.1 notOr
    have atom := (right (fun c member => plain c (by simp [columns, member])) second).2.2 atomic
    have both := chain.and atom
    rw [tokens, args, lexemes_connect (by decide)]
    exact ⟨both.whole, fun _ => both, fun no => by cases no⟩
  | or p q left right =>
    obtain ⟨notOr, first, second⟩ := standard
    have chain := (left (fun c member => plain c (by simp [columns, member])) first).2.1 notOr
    have whole := (right (fun c member => plain c (by simp [columns, member])) second).1
    rw [tokens, args, lexemes_connect (by decide)]
    refine ⟨chain.or whole, ?_, ?_⟩ <;> (intro no; cases no)
  | group p ih =>
    apply ofAtom rfl
    rw [tokens, args, lexemes_bracketedSpaced]
    exact (ih plain standard).1.group
  | inSelect lhs selected source p ih =>
    apply ofAtom rfl
    rw [tokens, args, lexemes_inSelect]
    exact (ih (fun c member => plain c (by simp [columns, member])) standard).1.inSelect
      (plain lhs (by simp [columns])) (plain selected (by simp [columns])) d source

/-- A condition has at least as many lexemes as parts. -/
theorem Predicate.size_le_length (p : Predicate) (d : Dialect) (backslash : Bool) :
    p.size ≤ (lexemes backslash (p.tokens d)).length := by
  induction p with
  | test lhs t =>
    have some : 1 ≤ (lexemes backslash t.tokens).length := by
      cases t with
      | compare op v => simp [Test.tokens]
      | isNull | isNotNull => simp +decide [Test.tokens, Token.words, Token.lexemes_word]
      | oneOf values => simp +decide [Test.tokens, Token.lexemes_word]
    simp only [size, tokens, lexemes_append, List.length_append]
    omega
  | anyLanguage c found pattern => simp +decide [size, tokens, Token.lexemes_word]
  | sameColumn a b | hasText c value =>
    simp [size, tokens, Token.spacedSymbol, Token.lexemes_symbol]
    omega
  | and p q left right =>
    rw [size, tokens, lexemes_connect (by decide), List.length_append, List.length_cons]
    omega
  | or p q left right =>
    rw [size, tokens, lexemes_connect (by decide), List.length_append, List.length_cons]
    omega
  | group p ih =>
    simp only [size, tokens, lexemes_bracketedSpaced, List.length_append, List.length_cons]
    omega
  | inSelect lhs selected source p ih =>
    simp only [size, tokens, lexemes_inSelect, inSelectLexemes, List.length_append, List.length_cons]
    omega

/-- Lexemes and values that are read as a condition are read as it from a text. -/
theorem read_of_reads {text : String} {args : List Value} {p : Predicate}
    (reads : Reads (lex true text) args p) (short : p.size ≤ (lex true text).length) :
    read text args = some p := by
  have whole := reads (lex true text).length [] [] short (.inl rfl)
  rw [List.append_nil, List.append_nil] at whole
  simp [read, whole]

/-- The text and the values of a condition in standard form are read as this condition. -/
theorem read_text {p : Predicate} (d : Dialect) (plain : p.Plain) (standard : p.Standard) :
    read (p.text d) p.args = some p := by
  have lexed : lex true (p.text d) = lexemes true (p.tokens d) :=
    lex_print (Predicate.marked d plain).legible
  apply read_of_reads
  · rw [lexed]
    exact (Predicate.reads d plain standard).1
  · rw [lexed]
    exact p.size_le_length d true

end RowQuery.Sql
