import RowQuery.Proofs.Reading

/-!
# The outline of a condition

What brackets and connectives alone say about a text. `outline` divides lexemes at the connectives
that stand outside of brackets, and `Balanced` says that every bracket has its partner. Lexemes that
are balanced and not divided by a connective are `Closed`; pieces that are closed can be put side by
side with connectives between them, and the outline gives back exactly these pieces.
-/

namespace RowQuery.Sql

/-- The connectives between conditions. -/
inductive Connective where
  | and
  | or
  deriving DecidableEq, Repr

namespace Lexeme

/-- The connective that a word is, in small or in capital letters. -/
def connective? : Lexeme → Option Connective
  | .word s =>
    if Text.toSmalls s = "and" then some .and
    else if Text.toSmalls s = "or" then some .or
    else none
  | _ => none

/-- How deep in brackets the text is behind a lexeme; none if it closes what was not opened. -/
def depth? (depth : Nat) (l : Lexeme) : Option Nat :=
  if l = .symbol '(' then some (depth + 1)
  else if l = .symbol ')' then
    match depth with
    | 0 => none
    | depth + 1 => some depth
  else some depth

/-- Whether a lexeme is neither a bracket nor a connective. -/
def isFlat (l : Lexeme) : Bool := l.connective?.isNone && l != .symbol '(' && l != .symbol ')'

theorem depth?_succ {l : Lexeme} {depth next : Nat} (step : l.depth? depth = some next) :
    l.depth? (depth + 1) = some (next + 1) := by
  unfold depth? at step ⊢
  split
  case isTrue opens =>
    rw [if_pos opens] at step
    cases step
    rfl
  case isFalse other =>
    rw [if_neg other] at step
    split
    case isTrue closes =>
      rw [if_pos closes] at step
      cases depth with
      | zero => cases step
      | succ less => cases step; rfl
    case isFalse neither =>
      rw [if_neg neither] at step
      cases step
      rfl

end Lexeme

/-- How deep in brackets the text is behind some lexemes. -/
def depthBehind? (depth : Nat) (ls : List Lexeme) : Option Nat := ls.foldlM Lexeme.depth? depth

/-- Every bracket that is opened is closed, and the other way round. -/
def Balanced (ls : List Lexeme) : Prop := depthBehind? 0 ls = some 0

/-- A text divided at its connectives: what comes first, then each connective and what follows it. -/
structure Outline where
  first : List Lexeme
  rest : List (Connective × List Lexeme)
  deriving DecidableEq, Repr

/-- Divides lexemes that start at some depth at the connectives of depth zero. -/
def outline : (depth : Nat) → List Lexeme → Outline
  | _, [] => ⟨[], []⟩
  | depth, l :: ls =>
    let behind := outline ((l.depth? depth).getD 0) ls
    match if depth = 0 then l.connective? else none with
    | some w => ⟨[], (w, behind.first) :: behind.rest⟩
    | none => ⟨l :: behind.first, behind.rest⟩

/-- The connectives outside of brackets. -/
def connectives (ls : List Lexeme) : List Connective := (outline 0 ls).rest.map (·.1)

/-- What stands between the connectives outside of brackets; nothing in an empty text. -/
def operands (ls : List Lexeme) : List (List Lexeme) :=
  if ls.isEmpty then [] else (outline 0 ls).first :: (outline 0 ls).rest.map (·.2)

/-- An outline with some lexemes before it. -/
def Outline.behind (ls : List Lexeme) (o : Outline) : Outline := ⟨ls ++ o.first, o.rest⟩

variable {ls ms : List Lexeme}

theorem depthBehind?_append (depth : Nat) (ls ms : List Lexeme) :
    depthBehind? depth (ls ++ ms) = (depthBehind? depth ls).bind fun next => depthBehind? next ms :=
  List.foldlM_append

/-- What does not go below the ground is not divided above it. -/
theorem outline_deep {depth next : Nat} (walk : depthBehind? depth ls = some next) (rest : List Lexeme) :
    outline (depth + 1) (ls ++ rest) = (outline (next + 1) rest).behind ls := by
  induction ls generalizing depth with
  | nil =>
    cases walk
    rfl
  | cons l ls ih =>
    simp only [depthBehind?, List.foldlM_cons, Option.bind_eq_bind, Option.bind_eq_some_iff] at walk
    obtain ⟨middle, step, walk⟩ := walk
    rw [List.cons_append, outline, Lexeme.depth?_succ step, Option.getD_some, ih walk]
    rfl

theorem depthBehind?_shift {depth next : Nat} (walk : depthBehind? depth ls = some next) :
    depthBehind? (depth + 1) ls = some (next + 1) := by
  induction ls generalizing depth with
  | nil =>
    cases walk
    rfl
  | cons l ls ih =>
    simp only [depthBehind?, List.foldlM_cons, Option.bind_eq_bind, Option.bind_eq_some_iff] at walk ⊢
    obtain ⟨middle, step, walk⟩ := walk
    exact ⟨middle + 1, Lexeme.depth?_succ step, ih walk⟩

namespace Balanced

theorem append (first : Balanced ls) (second : Balanced ms) : Balanced (ls ++ ms) := by
  rw [Balanced, depthBehind?_append, first]
  exact second

theorem bracketed (inner : Balanced ls) : Balanced (.symbol '(' :: ls ++ [.symbol ')']) := by
  have shifted := depthBehind?_shift inner
  rw [Balanced, List.cons_append, ← List.singleton_append, depthBehind?_append]
  show depthBehind? 1 (ls ++ [.symbol ')']) = some 0
  rw [depthBehind?_append, shifted]
  rfl

theorem word (s : String) : Balanced [.word s] := rfl

end Balanced

/-- Lexemes that are balanced and that no connective divides, whatever follows them. -/
structure Closed (ls : List Lexeme) : Prop where
  balanced : Balanced ls
  undivided : ∀ rest, outline 0 (ls ++ rest) = (outline 0 rest).behind ls

namespace Closed

theorem append (first : Closed ls) (second : Closed ms) : Closed (ls ++ ms) := by
  refine ⟨first.balanced.append second.balanced, ?_⟩
  intro rest
  rw [List.append_assoc, first.undivided, second.undivided]
  simp [Outline.behind]

theorem flat (each : ∀ l ∈ ls, l.isFlat = true) : Closed ls := by
  induction ls with
  | nil => exact ⟨rfl, fun _ => rfl⟩
  | cons l ls ih =>
    have first : Closed [l] := by
      have only := each l (by simp)
      simp only [Lexeme.isFlat, Bool.and_eq_true, Option.isNone_iff_eq_none, bne_iff_ne] at only
      obtain ⟨⟨none, notOpen⟩, notClose⟩ := only
      have level : l.depth? 0 = some 0 := by rw [Lexeme.depth?, if_neg notOpen, if_neg notClose]
      constructor
      · simp [Balanced, depthBehind?, level]
      · intro rest
        rw [List.singleton_append, outline, if_pos rfl, none, level, Option.getD_some]
        rfl
    exact first.append (ih fun other member => each other (by simp [member]))

/-- Brackets keep what is between them together. -/
theorem bracketed (inner : Balanced ls) : Closed (.symbol '(' :: ls ++ [.symbol ')']) := by
  refine ⟨inner.bracketed, ?_⟩
  intro rest
  have opened : outline 0 (.symbol '(' :: (ls ++ .symbol ')' :: rest)) =
      (outline 1 (ls ++ .symbol ')' :: rest)).behind [.symbol '('] := rfl
  have closed : outline 1 (.symbol ')' :: rest) = (outline 0 rest).behind [.symbol ')'] := rfl
  simp only [List.cons_append, List.append_assoc, List.nil_append]
  rw [opened, outline_deep inner, closed]
  simp [Outline.behind]

end Closed

/-- Closed pieces with a connective between each two are divided into these pieces. -/
theorem outline_intercalate {w : String} {connective : Connective}
    (isConnective : (Lexeme.word w).connective? = some connective) {piece : List Lexeme}
    {pieces : List (List Lexeme)} (closed : ∀ ls ∈ piece :: pieces, Closed ls) :
    outline 0 ([Lexeme.word w].intercalate (piece :: pieces)) =
      ⟨piece, pieces.map fun other => (connective, other)⟩ := by
  induction pieces generalizing piece with
  | nil =>
    have only := (closed piece (by simp)).undivided []
    simpa [Outline.behind, outline] using only
  | cons next pieces ih =>
    have first := closed piece (by simp)
    have rest := ih fun ls member => closed ls (List.mem_cons_of_mem _ member)
    rw [List.intercalate_cons_cons, List.append_assoc, first.undivided, List.singleton_append, outline,
      if_pos rfl, isConnective]
    have level : ((Lexeme.word w).depth? 0).getD 0 = 0 := rfl
    rw [level, rest]
    simp [Outline.behind]

/-- The outline of closed pieces, none of them empty, has these pieces and one connective only. -/
theorem operands_intercalate {w : String} {connective : Connective}
    (isConnective : (Lexeme.word w).connective? = some connective) {pieces : List (List Lexeme)}
    (closed : ∀ ls ∈ pieces, Closed ls) (some : ∀ ls ∈ pieces, ls ≠ []) :
    operands ([Lexeme.word w].intercalate pieces) = pieces ∧
      ∀ x ∈ connectives ([Lexeme.word w].intercalate pieces), x = connective := by
  cases pieces with
  | nil => exact ⟨rfl, by simp [connectives, outline]⟩
  | cons piece pieces =>
    have divided := outline_intercalate isConnective closed
    have notEmpty : ([Lexeme.word w].intercalate (piece :: pieces)).isEmpty = false := by
      have first := some piece (by simp)
      cases pieces <;> cases piece <;> simp_all [List.intercalate_cons_cons]
    constructor
    · simp [operands, notEmpty, divided, Function.comp_def]
    · simp [connectives, divided, Function.comp_def]

theorem balanced_intercalate (w : String) {pieces : List (List Lexeme)}
    (each : ∀ ls ∈ pieces, Balanced ls) : Balanced ([Lexeme.word w].intercalate pieces) := by
  induction pieces with
  | nil => rfl
  | cons piece pieces ih =>
    have first := each piece (by simp)
    have rest := ih fun ls member => each ls (by simp [member])
    cases pieces with
    | nil => simpa using first
    | cons next pieces =>
      rw [List.intercalate_cons_cons]
      exact (first.append (.word w)).append rest

/-! ## The outline of conditions -/

@[simp] theorem isFlat_quoted (q : Char) (s : String) : (Lexeme.quoted q s).isFlat = true := rfl

theorem isFlat_of_isIdentifier {s : String} (identifier : isIdentifier s = true) :
    (Lexeme.word s).isFlat = true := by
  simp only [isIdentifier, Bool.and_eq_true, bne_iff_ne] at identifier
  obtain ⟨⟨_, notAnd⟩, notOr⟩ := identifier
  have none : (Lexeme.word s).connective? = none := by
    rw [Lexeme.connective?, if_neg notAnd, if_neg notOr]
  rw [Lexeme.isFlat, none]
  rfl

section Pieces

variable (d : Dialect) {backslash : Bool}

theorem isFlat_literal {s : String} {l : Lexeme} (member : l ∈ (Token.literal s).lexemes backslash) :
    l.isFlat = true := by
  cases List.mem_singleton.mp member
  rfl

theorem Column.flat {c : Column} (plain : c.Plain) :
    ∀ l ∈ lexemes backslash (c.tokens d), l.isFlat = true := by
  obtain ⟨table, name, bare⟩ := c
  cases bare with
  | true =>
    have identifier : isIdentifier name = true := plain rfl
    have word := isFlat_of_isIdentifier identifier
    cases table <;>
      simp +decide [Column.tokens, Token.lexemes_word (isWord_of_isIdentifier identifier),
        Token.lexemes_name, Token.lexemes_symbol, word]
  | false =>
    cases table <;> simp +decide [Column.tokens, Token.lexemes_name, Token.lexemes_symbol]

theorem Column.closed {c : Column} (plain : c.Plain) : Closed (lexemes backslash (c.tokens d)) :=
  .flat (Column.flat d plain)

theorem Expr.closed {e : Expr} (plain : e.source.Plain) : Closed (lexemes backslash (e.tokens d)) := by
  cases e with
  | column c => exact Column.closed d plain
  | jsonText c keys =>
    have column : Closed (lexemes backslash (c.tokens d)) := Column.closed d plain
    have path : Closed ((Token.literal (keyPath keys)).lexemes backslash) :=
      .flat fun l member => isFlat_literal member
    have arrow : Closed [.symbol '-', .symbol '>'] := .flat (by decide)
    have type : Closed [.word "AS", .word "CHAR"] := .flat (by decide)
    have call : Closed [.word "CAST"] := .flat (by decide)
    have whole := call.append (.bracketed (((column.append arrow).append path).append type).balanced)
    simpa +decide [Expr.tokens, jsonTextTokens, lexemes_spaced, Token.lexemes_word, Token.lexemes_symbol]
      using whole
  | language c code =>
    have column : Closed (lexemes backslash (c.tokens d)) := Column.closed d plain
    have path : Closed ((Token.literal (languagePath code)).lexemes backslash) :=
      .flat fun l member => isFlat_literal member
    have comma : Closed [.symbol ','] := .flat (by decide)
    have call : Closed [.word "JSON_EXTRACT"] := .flat (by decide)
    have outer : Closed [.word "JSON_UNQUOTE"] := .flat (by decide)
    have inner := call.append (.bracketed ((column.append comma).append path).balanced)
    have whole := outer.append (.bracketed inner.balanced)
    simpa +decide [Expr.tokens, languageTokens, Token.comma, Token.lexemes_word, Token.lexemes_symbol]
      using whole

theorem flat_values (backslash : Bool) (values : List Value) :
    ∀ l ∈ lexemes backslash ((values.map fun _ => Token.placeholder).intersperse (.symbol ",")),
      l.isFlat = true := by
  induction values with
  | nil => simp
  | cons v vs ih =>
    cases vs with
    | nil => simp +decide
    | cons w ws =>
      simp only [List.map_cons, List.intersperse_cons_cons] at ih ⊢
      simpa +decide [Token.lexemes_symbol] using ih

theorem Test.closed (t : Test) : Closed (lexemes backslash t.tokens) := by
  cases t with
  | compare op value =>
    apply Closed.flat
    cases op <;>
      simp +decide [Test.tokens, Comparison.token, Token.lexemes_word, Token.lexemes_symbol]
  | isNull | isNotNull =>
    apply Closed.flat
    simp +decide [Test.tokens, Token.words, Token.lexemes_word]
  | oneOf values =>
    have word : Closed [.word "IN"] := .flat (by decide)
    have list := Closed.bracketed (Closed.flat (flat_values backslash values)).balanced
    simpa +decide [Test.tokens, lexemes_bracketed, Token.lexemes_word] using word.append list

/-- A condition is balanced, and closed if it has no connective outside of brackets. -/
theorem Predicate.outlined {p : Predicate} (plain : p.Plain) :
    Balanced (lexemes backslash (p.tokens d)) ∧
      (p.isAtomic = true → Closed (lexemes backslash (p.tokens d))) := by
  have ofClosed : ∀ {p : Predicate}, Closed (lexemes backslash (p.tokens d)) →
      Balanced (lexemes backslash (p.tokens d)) ∧
        (p.isAtomic = true → Closed (lexemes backslash (p.tokens d))) :=
    fun closed => ⟨closed.balanced, fun _ => closed⟩
  induction p with
  | test lhs t =>
    apply ofClosed
    rw [tokens, lexemes_append]
    exact (Expr.closed d (plain _ (by simp [columns]))).append t.closed
  | anyLanguage c found pattern =>
    have column : Closed (lexemes backslash (c.tokens d)) := Column.closed d (plain c (by simp [columns]))
    have which : Closed (.symbol ',' :: ((Token.literal "one").lexemes backslash ++
        [.symbol ',', .symbol '?'])) := .flat (by cases backslash <;> decide)
    have call : Closed [.word "JSON_SEARCH"] := .flat (by decide)
    have test : Closed (lexemes backslash
        (Token.words (if found then ["IS", "NOT", "NULL"] else ["IS", "NULL"]))) := by
      apply Closed.flat
      cases found <;> simp +decide [Token.words, Token.lexemes_word]
    have whole := (call.append (.bracketed (column.append which).balanced)).append test
    apply ofClosed
    simpa +decide [tokens, Token.comma, Token.lexemes_word, Token.lexemes_symbol] using whole
  | sameColumn a b =>
    apply ofClosed
    have left : Closed (lexemes backslash (a.tokens d)) := Column.closed d (plain a (by simp [columns]))
    have right : Closed (lexemes backslash (b.tokens d)) := Column.closed d (plain b (by simp [columns]))
    have equal : Closed [.symbol '='] := .flat (by decide)
    simpa [tokens, Token.spacedSymbol, Token.lexemes_symbol] using (left.append equal).append right
  | hasText c value =>
    apply ofClosed
    have column : Closed (lexemes backslash (c.tokens d)) := Column.closed d (plain c (by simp [columns]))
    have text : Closed ((Token.literal value).lexemes backslash) :=
      .flat fun l member => isFlat_literal member
    have equal : Closed [.symbol '='] := .flat (by decide)
    simpa [tokens, Token.spacedSymbol, Token.lexemes_symbol] using (column.append equal).append text
  | and p q left right =>
    have first := (left fun c member => plain c (by simp [columns, member])).1
    have second := (right fun c member => plain c (by simp [columns, member])).1
    rw [tokens, lexemes_connect (by decide)]
    exact ⟨first.append ((Balanced.word "AND").append second), fun no => by cases no⟩
  | or p q left right =>
    have first := (left fun c member => plain c (by simp [columns, member])).1
    have second := (right fun c member => plain c (by simp [columns, member])).1
    rw [tokens, lexemes_connect (by decide)]
    exact ⟨first.append ((Balanced.word "OR").append second), fun no => by cases no⟩
  | group p ih =>
    apply ofClosed
    rw [tokens, lexemes_bracketedSpaced]
    exact .bracketed (ih plain).1
  | inSelect lhs selected source p ih =>
    have condition := (ih fun c member => plain c (by simp [columns, member])).1
    have left : Closed (lexemes backslash (lhs.tokens d)) :=
      Column.closed d (plain lhs (by simp [columns]))
    have right : Closed (lexemes backslash (selected.tokens d)) :=
      Column.closed d (plain selected (by simp [columns]))
    have select : Closed [.word "SELECT"] := .flat (by decide)
    have inside : Closed [.word "IN"] := .flat (by decide)
    have clause : Closed [.word "FROM", .quoted d.quote source, .word "WHERE"] :=
      .flat (by simp +decide)
    have query := ((select.append right).append clause).append (.bracketed condition)
    apply ofClosed
    rw [tokens, lexemes_inSelect]
    simpa [inSelectLexemes] using (left.append inside).append (.bracketed query.balanced)

end Pieces

end RowQuery.Sql
