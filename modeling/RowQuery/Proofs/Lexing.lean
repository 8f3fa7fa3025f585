import RowQuery.Sql.Token

/-!
# Reading SQL text

A reader of SQL knows words, symbols, and tokens between backticks, double quotes or single quotes, in
which a doubled quote stands for one. Readers differ in what a backslash between single quotes means:
here it is a parameter, and nothing that is said about emitted text depends on it.

`lex_print` says that the text of legible tokens is read as the lexemes of these tokens, whatever
names and literals contain.
-/

namespace RowQuery.Sql

/-- What a reader of SQL text sees. Blanks only separate. -/
inductive Lexeme where
  | word (s : String)
  | symbol (c : Char)
  /-- A token between quotes, with what it stands for. -/
  | quoted (quote : Char) (body : String)
  /-- A quoted token that the text ends in. -/
  | unfinished (quote : Char) (body : String)
  deriving DecidableEq, Repr

/-- The characters of words. -/
def isWordChar (c : Char) : Bool := c.isAlphanum || c == '_'

/-- The characters that start a quoted token. -/
def isQuote (c : Char) : Bool := c == '\x60' || c == '\x22' || c == '\''

/-- The characters that end a word and a quoted token, and are part of neither. -/
def isSeparator (c : Char) : Bool := !isWordChar c && !isQuote c

/-- Whether a text is one word. -/
def isWord (s : String) : Bool := s != "" && s.toList.all isWordChar

/-- The characters of words are neither quotes nor placeholders. -/
theorem unmarked_of_isWordChar {c : Char} (char : isWordChar c = true) :
    isQuote c = false ∧ c ≠ '?' := by
  constructor
  · cases quote : isQuote c with
    | false => rfl
    | true =>
      simp only [isQuote, Bool.or_eq_true, beq_iff_eq] at quote
      rcases quote with (rfl | rfl) | rfl <;> revert char <;> decide
  · rintro rfl
    revert char
    decide

/-- What a backslash and a character stand for between single quotes. -/
def unescape : Char → List Char
  | '0' => ['\x00']
  | 'b' => ['\x08']
  | 'n' => ['\n']
  | 'r' => ['\r']
  | 't' => ['\t']
  | 'Z' => ['\x1a']
  | '%' => ['\\', '%']
  | '_' => ['\\', '_']
  | c => [c]

/-- Where a reader is. -/
inductive LexState where
  /-- Outside of quotes, behind the beginning of a word. -/
  | plain (word : List Char)
  | inside (quote : Char) (body : List Char)
  /-- Behind a quote that ends the token, unless another one follows. -/
  | closing (quote : Char) (body : List Char)
  /-- Behind a backslash. -/
  | escaped (quote : Char) (body : List Char)
  deriving DecidableEq, Repr

/-- A word that has come to its end; nothing if there was none. -/
def endWord (word : List Char) : List Lexeme :=
  if word.isEmpty then [] else [.word (String.ofList word)]

namespace LexState

/-- One character outside of quotes: the lexemes that are complete, and where the reader is then. -/
def stepPlain (word : List Char) (c : Char) : List Lexeme × LexState :=
  if isWordChar c then ([], .plain (word ++ [c]))
  else if isQuote c then (endWord word, .inside c [])
  else if c.isWhitespace then (endWord word, .plain [])
  else (endWord word ++ [.symbol c], .plain [])

/-- One character. `backslash` says whether a backslash escapes between single quotes. -/
def step (backslash : Bool) : LexState → Char → List Lexeme × LexState
  | .plain word, c => stepPlain word c
  | .inside q body, c =>
    if c = q then ([], .closing q body)
    else if backslash && q == '\'' && c == '\\' then ([], .escaped q body)
    else ([], .inside q (body ++ [c]))
  | .closing q body, c =>
    if c = q then ([], .inside q (body ++ [q]))
    else (.quoted q (String.ofList body) :: (stepPlain [] c).1, (stepPlain [] c).2)
  | .escaped q body, c => ([], .inside q (body ++ unescape c))

/-- The lexeme that the end of the text completes. -/
def finish : LexState → List Lexeme
  | .plain word => endWord word
  | .closing q body => [.quoted q (String.ofList body)]
  | .inside q body | .escaped q body => [.unfinished q (String.ofList body)]

/-- Some characters: the lexemes that are complete, and where the reader is then. -/
def run (backslash : Bool) : LexState → List Char → List Lexeme × LexState
  | state, [] => ([], state)
  | state, c :: cs =>
    let (now, next) := state.step backslash c
    let (later, last) := run backslash next cs
    (now ++ later, last)

/-- The lexemes of the rest of a text. -/
def lexFrom (backslash : Bool) (state : LexState) (cs : List Char) : List Lexeme :=
  (state.run backslash cs).1 ++ (state.run backslash cs).2.finish

end LexState

/-- The lexemes of a text. -/
def lex (backslash : Bool) (s : String) : List Lexeme :=
  LexState.lexFrom backslash (.plain []) s.toList

/-- The number of placeholders outside of quoted tokens. -/
def placeholders (ls : List Lexeme) : Nat := ls.count (.symbol '?')

namespace LexState

variable {backslash : Bool}

theorem run_cons (state : LexState) (c : Char) (cs : List Char) :
    state.run backslash (c :: cs) =
      ((state.step backslash c).1 ++ ((state.step backslash c).2.run backslash cs).1,
        ((state.step backslash c).2.run backslash cs).2) := rfl

theorem run_append (state : LexState) (cs ds : List Char) :
    state.run backslash (cs ++ ds) =
      ((state.run backslash cs).1 ++ ((state.run backslash cs).2.run backslash ds).1,
        ((state.run backslash cs).2.run backslash ds).2) := by
  induction cs generalizing state with
  | nil => rfl
  | cons c cs ih =>
    simp only [List.cons_append, run_cons, ih, List.append_assoc]

theorem lexFrom_append (state : LexState) (cs ds : List Char) :
    state.lexFrom backslash (cs ++ ds) =
      (state.run backslash cs).1 ++ (state.run backslash cs).2.lexFrom backslash ds := by
  simp only [lexFrom, run_append, List.append_assoc]

/-- A state in which no quoted token is open. -/
def settled : LexState → Bool
  | .plain _ => true
  | .closing q _ => isQuote q
  | .inside _ _ | .escaped _ _ => false

/-- A text that starts with no part of a word or of a quoted token. -/
def startsApart (cs : List Char) : Prop := ∀ c ∈ cs.head?, isSeparator c = true

/-- A text that starts apart is read as if it stood alone. -/
theorem lexFrom_settled {state : LexState} {cs : List Char} (settled : state.settled = true)
    (apart : startsApart cs) :
    state.lexFrom backslash cs = state.finish ++ lexFrom backslash (.plain []) cs := by
  cases cs with
  | nil => simp [lexFrom, run, finish, endWord]
  | cons c cs =>
    have separator : isWordChar c = false ∧ isQuote c = false := by
      simpa [isSeparator] using apart c rfl
    cases state with
    | plain word =>
      by_cases blank : c.isWhitespace = true <;>
        simp [lexFrom, run_cons, step, stepPlain, separator, blank, finish, endWord]
    | closing q body =>
      have other : c ≠ q := by
        rintro rfl
        have quote : isQuote c = true := settled
        rw [separator.2] at quote
        cases quote
      simp [lexFrom, run_cons, step, other, finish]
    | inside q body => cases settled
    | escaped q body => cases settled

/-- Between quotes that are not single ones, doubled quotes are read as the body that was doubled. -/
theorem run_double {q : Char} (notSingle : (q == '\'') = false) (body cs : List Char) :
    (LexState.inside q body).run backslash (double q cs) = ([], .inside q (body ++ cs)) := by
  induction cs generalizing body with
  | nil => simp [double, run]
  | cons c cs ih =>
    simp only [double, List.flatMap_cons] at ih ⊢
    rw [run_append]
    by_cases same : c = q
    · simp [same, run, step, ih]
    · simp [same, run, step, notSingle, ih]

/-- What the characters of a literal stand for: themselves if a backslash escapes, else with every
    backslash twice. -/
def literalBody (backslash : Bool) (cs : List Char) : List Char :=
  if backslash then cs else double '\\' cs

/-- A literal is one token, whether a backslash escapes or not. -/
theorem run_literal (body cs : List Char) :
    (LexState.inside '\'' body).run backslash (cs.flatMap literalChar) =
      ([], .inside '\'' (body ++ literalBody backslash cs)) := by
  induction cs generalizing body with
  | nil => cases backslash <;> simp [literalBody, double, run]
  | cons c cs ih =>
    rw [List.flatMap_cons, run_append]
    by_cases escape : c = '\\'
    · cases backslash <;> simp_all [literalChar, run, step, literalBody, double, unescape]
    · by_cases quote : c = '\''
      · cases backslash <;> simp_all [literalChar, run, step, literalBody, double]
      · cases backslash <;> simp_all [literalChar, run, step, literalBody, double]

/-- Text without quotes leaves the reader outside of quotes, and a backslash means nothing in it. -/
theorem run_unquoted (backslash : Bool) (word cs : List Char)
    (unquoted : ∀ c ∈ cs, isQuote c = false) :
    ∃ last, (LexState.plain word).run backslash cs =
      (((LexState.plain word).run false cs).1, .plain last) ∧
      ((LexState.plain word).run false cs).2 = .plain last := by
  induction cs generalizing word with
  | nil => exact ⟨word, rfl, rfl⟩
  | cons c cs ih =>
    have notQuote : isQuote c = false := unquoted c (by simp)
    have rest : ∀ c ∈ cs, isQuote c = false := fun d member => unquoted d (by simp [member])
    have next : ∃ word', (stepPlain word c).2 = .plain word' := by
      unfold stepPlain
      split
      · exact ⟨_, rfl⟩
      · simp only [notQuote, Bool.false_eq_true, if_false]
        split <;> exact ⟨_, rfl⟩
    obtain ⟨word', next⟩ := next
    obtain ⟨last, same, ended⟩ := ih word' rest
    refine ⟨last, ?_, ?_⟩
    · simp only [run_cons, step, next, same]
    · simp only [run_cons, step, next, ended]

/-- Text without quotes and placeholders has no placeholder among its lexemes. -/
theorem not_mem_run_unquoted (word cs : List Char)
    (unmarked : ∀ c ∈ cs, isQuote c = false ∧ c ≠ '?') :
    Lexeme.symbol '?' ∉ ((LexState.plain word).run backslash cs).1 := by
  induction cs generalizing word with
  | nil => simp [run]
  | cons c cs ih =>
    have first := unmarked c (by simp)
    have rest := fun word' => ih word' fun d member => unmarked d (by simp [member])
    simp only [run_cons, step, stepPlain, first.1]
    split
    · exact rest _
    · simp only [Bool.false_eq_true, if_false]
      have notEnd : Lexeme.symbol '?' ∉ endWord word := by
        unfold endWord
        split <;> simp
      split <;> simp [notEnd, rest, first.2.symm]

/-- The characters of a word are kept until it ends. -/
theorem run_word (word cs : List Char) (chars : ∀ c ∈ cs, isWordChar c = true) :
    (LexState.plain word).run backslash cs = ([], .plain (word ++ cs)) := by
  induction cs generalizing word with
  | nil => simp [run]
  | cons c cs ih =>
    have first : isWordChar c = true := chars c (by simp)
    have rest := ih (word ++ [c]) fun d member => chars d (by simp [member])
    simp [run_cons, step, stepPlain, first, rest]

/-- Separators leave the reader outside of words and quotes. -/
theorem run_separators {cs : List Char} (separators : ∀ c ∈ cs, isSeparator c = true) :
    (LexState.plain []).run backslash cs =
      ((cs.filter fun c => !c.isWhitespace).map .symbol, .plain []) := by
  induction cs with
  | nil => rfl
  | cons c cs ih =>
    have separator : isWordChar c = false ∧ isQuote c = false := by
      simpa [isSeparator] using separators c (by simp)
    have rest := ih fun d member => separators d (by simp [member])
    by_cases blank : c.isWhitespace = true <;>
      simp [run_cons, step, stepPlain, separator, blank, endWord, rest]

end LexState

namespace Token

/-- The lexemes of a token. -/
def lexemes (backslash : Bool) : Token → List Lexeme
  | .word s => lex false s
  | .space => []
  | .symbol s => s.toList.map .symbol
  | .name d s => [.quoted d.quote s]
  | .literal s => [.quoted '\'' (String.ofList (LexState.literalBody backslash s.toList))]
  | .placeholder => [.symbol '?']

/-- Whether the text of a token could run into that of another. -/
def solid : Token → Bool
  | .word _ | .name _ _ | .literal _ => true
  | .space | .symbol _ | .placeholder => false

/-- Whether the text of a token is what it seems: no word has quotes or placeholders in it, and symbols
    are symbols. -/
def regular : Token → Bool
  | .word s => s.toList.all fun c => !isQuote c && c != '?'
  | .symbol s => s != "" && s.toList.all fun c => isSeparator c && !c.isWhitespace && c != '?'
  | .space | .name _ _ | .literal _ | .placeholder => true

@[simp] theorem regular_name (d : Dialect) (s : String) : (name d s).regular = true := rfl

@[simp] theorem regular_literal (s : String) : (literal s).regular = true := rfl

theorem unquoted_of_regular {s : String} (regular : (word s).regular = true) :
    ∀ c ∈ s.toList, isQuote c = false ∧ c ≠ '?' := by
  simpa [Token.regular] using regular

theorem symbols_of_regular {s : String} (regular : (symbol s).regular = true) :
    s ≠ "" ∧ ∀ c ∈ s.toList, (isSeparator c = true ∧ c.isWhitespace = false) ∧ c ≠ '?' := by
  simpa [Token.regular] using regular

open LexState

variable {backslash : Bool}

@[simp] theorem lexemes_space : Token.space.lexemes backslash = [] := rfl

theorem lexemes_symbol (s : String) :
    (Token.symbol s).lexemes backslash = s.toList.map .symbol := rfl

theorem lexemes_name (d : Dialect) (s : String) :
    (Token.name d s).lexemes backslash = [.quoted d.quote s] := rfl

/-- A literal is read as it was, if a backslash escapes. -/
theorem lexemes_literal (s : String) : (Token.literal s).lexemes true = [.quoted '\'' s] := by
  simp [lexemes, literalBody]

@[simp] theorem lexemes_placeholder : Token.placeholder.lexemes backslash = [.symbol '?'] := rfl

theorem lexemes_word {s : String} (word : isWord s = true) :
    (Token.word s).lexemes backslash = [.word s] := by
  simp only [isWord, Bool.and_eq_true, bne_iff_ne, List.all_eq_true] at word
  simp [lexemes, lex, lexFrom, run_word [] s.toList word.2, finish, endWord, word.1]

theorem regular_word {s : String} (word : isWord s = true) : (Token.word s).regular = true := by
  simp only [isWord, Bool.and_eq_true, bne_iff_ne, List.all_eq_true] at word
  simp only [regular, List.all_eq_true, Bool.and_eq_true, Bool.not_eq_true', bne_iff_ne]
  exact fun c member => unmarked_of_isWordChar (word.2 c member)

/-- The end of a name is settled. -/
theorem run_name (d : Dialect) (s : String) :
    (LexState.plain []).run backslash (d.quoteName s).toList = ([], .closing d.quote s.toList) := by
  have notSingle : (d.quote == '\'') = false := by cases d <;> decide
  have start : stepPlain [] d.quote = ([], .inside d.quote []) := by cases d <;> decide
  simp only [Dialect.quoteName, enclose, String.toList_ofList, run_cons, step, start, run_append,
    run_double notSingle]
  simp [run]

/-- The end of a literal is settled. -/
theorem run_quoteLiteral (s : String) :
    (LexState.plain []).run backslash (quoteLiteral s).toList =
      ([], .closing '\'' (literalBody backslash s.toList)) := by
  have start : stepPlain [] '\'' = ([], .inside '\'' []) := by decide
  simp only [quoteLiteral, String.toList_ofList, run_cons, step, start, run_append, run_literal]
  simp [run]

/-- A token is read as its lexemes, if what follows cannot run into it. -/
theorem lexFrom_text {t : Token} {cs : List Char} (regular : t.regular = true)
    (apart : t.solid = true → startsApart cs) :
    lexFrom backslash (.plain []) (t.text.toList ++ cs) =
      t.lexemes backslash ++ lexFrom backslash (.plain []) cs := by
  rw [lexFrom_append]
  cases t with
  | word s =>
    have unquoted : ∀ c ∈ s.toList, isQuote c = false :=
      fun c member => (unquoted_of_regular regular c member).1
    obtain ⟨last, same, ended⟩ := run_unquoted backslash [] s.toList unquoted
    have settled : (LexState.plain last).settled = true := rfl
    simp only [text, same, lexFrom_settled settled (apart rfl), lexemes, lex]
    simp only [lexFrom, ended, List.append_assoc]
  | space =>
    have blank : (LexState.plain []).run backslash (Token.space).text.toList = ([], .plain []) := rfl
    simp only [blank, lexemes]
  | symbol s =>
    obtain ⟨-, symbols⟩ := symbols_of_regular regular
    have all : ∀ c ∈ s.toList, isSeparator c = true := fun c member => (symbols c member).1.1
    have kept : s.toList.filter (fun c => !c.isWhitespace) = s.toList := by
      apply List.filter_eq_self.mpr
      intro c member
      simp [(symbols c member).1.2]
    simp only [text, run_separators all, kept, lexemes]
  | name d s =>
    have settled : (LexState.closing d.quote s.toList).settled = true := by cases d <;> rfl
    simp [text, run_name, lexFrom_settled settled (apart rfl), finish, lexemes]
  | literal s =>
    have settled : (LexState.closing '\'' (literalBody backslash s.toList)).settled = true := rfl
    simp [text, run_quoteLiteral, lexFrom_settled settled (apart rfl), finish, lexemes]
  | placeholder =>
    have mark : (LexState.plain []).run backslash (Token.placeholder).text.toList =
        ([.symbol '?'], .plain []) := rfl
    simp only [mark, lexemes]

/-- The text of a regular token that is not solid starts apart. -/
theorem startsApart_text {t : Token} (cs : List Char) (regular : t.regular = true)
    (loose : t.solid = false) : startsApart (t.text.toList ++ cs) := by
  cases t with
  | space =>
    intro c head
    cases head
    decide
  | symbol s =>
    obtain ⟨someText, symbols⟩ := symbols_of_regular regular
    intro c head
    cases chars : s.toList with
    | nil => exact absurd (String.toList_eq_nil_iff.mp chars) someText
    | cons d ds =>
      simp only [text, chars, List.cons_append, List.head?_cons, Option.mem_def,
        Option.some.injEq] at head
      exact (symbols c (by simp [chars, head])).1.1
  | placeholder =>
    intro c head
    cases head
    decide
  | word _ | name _ _ | literal _ => cases loose

end Token

/-- Tokens whose texts cannot run into each other: of two neighbours, one is not solid. -/
def Legible : List Token → Prop
  | [] => True
  | [t] => t.regular = true
  | t :: u :: ts => t.regular = true ∧ (t.solid && u.solid) = false ∧ Legible (u :: ts)

/-- The lexemes of tokens. -/
def lexemes (backslash : Bool) (ts : List Token) : List Lexeme := ts.flatMap (Token.lexemes backslash)

section Legible

variable {backslash : Bool}

@[simp] theorem lexemes_nil : lexemes backslash [] = [] := rfl

@[simp] theorem lexemes_cons (t : Token) (ts : List Token) :
    lexemes backslash (t :: ts) = t.lexemes backslash ++ lexemes backslash ts := rfl

@[simp] theorem lexemes_append (ts us : List Token) :
    lexemes backslash (ts ++ us) = lexemes backslash ts ++ lexemes backslash us :=
  List.flatMap_append

theorem lexemes_spaced {w : String} (word : isWord w = true) :
    lexemes backslash (Token.spaced w) = [.word w] := by
  simp [Token.spaced, Token.lexemes_word word]

theorem lexemes_intercalate (between : List Token) (parts : List (List Token)) :
    lexemes backslash (Token.joined between parts) =
      (lexemes backslash between).intercalate (parts.map (lexemes backslash)) := by
  unfold Token.joined
  induction parts with
  | nil => rfl
  | cons part parts ih =>
    cases parts with
    | nil => simp
    | cons next parts =>
      simp only [List.intercalate_cons_cons, List.map_cons, lexemes_append] at ih ⊢
      rw [ih]

theorem lexemes_joined {w : String} (word : isWord w = true) (parts : List (List Token)) :
    lexemes backslash (Token.joined (Token.spaced w) parts) =
      [Lexeme.word w].intercalate (parts.map (lexemes backslash)) := by
  rw [lexemes_intercalate, lexemes_spaced word]

@[simp] theorem print_append (ts us : List Token) :
    Token.print (ts ++ us) = Token.print ts ++ Token.print us := by
  simp [Token.print, String.join_append]

theorem Legible.regular {t : Token} {ts : List Token} (h : Legible (t :: ts)) : t.regular = true := by
  cases ts with
  | nil => exact h
  | cons u ts => exact h.1

theorem Legible.tail {t : Token} {ts : List Token} (h : Legible (t :: ts)) : Legible ts := by
  cases ts with
  | nil => trivial
  | cons u ts => exact h.2.2

theorem Legible.allRegular {ts : List Token} (h : Legible ts) : ∀ t ∈ ts, t.regular = true := by
  induction ts with
  | nil => simp
  | cons t ts ih =>
    intro u member
    rcases List.mem_cons.mp member with rfl | member
    · exact h.regular
    · exact ih h.tail u member

/-- A token that is not solid may stand before any others. -/
theorem legible_cons_loose {t : Token} {ts : List Token} (loose : t.solid = false) :
    Legible (t :: ts) ↔ t.regular = true ∧ Legible ts := by
  cases ts with
  | nil => simp [Legible]
  | cons u ts => simp [Legible, loose]

/-- A token that is not solid keeps what stands before it apart. -/
theorem legible_append_loose {u : Token} (ts us : List Token) (loose : u.solid = false) :
    Legible (ts ++ u :: us) ↔ Legible ts ∧ Legible (u :: us) := by
  induction ts with
  | nil => simp [Legible]
  | cons t ts ih =>
    cases ts with
    | nil => simp [Legible, loose]
    | cons v ts =>
      simp only [List.cons_append, Legible] at ih ⊢
      rw [ih]
      simp only [and_assoc]

@[simp] theorem legible_nil : Legible [] := trivial

@[simp] theorem legible_space (ts : List Token) : Legible (.space :: ts) ↔ Legible ts := by
  simp [legible_cons_loose (show Token.space.solid = false from rfl), Token.regular]

@[simp] theorem legible_symbol (s : String) (ts : List Token) :
    Legible (.symbol s :: ts) ↔ (Token.symbol s).regular = true ∧ Legible ts :=
  legible_cons_loose rfl

@[simp] theorem legible_placeholder (ts : List Token) :
    Legible (.placeholder :: ts) ↔ Legible ts := by
  simp [legible_cons_loose (show Token.placeholder.solid = false from rfl), Token.regular]

@[simp] theorem legible_append_space (ts us : List Token) :
    Legible (ts ++ .space :: us) ↔ Legible ts ∧ Legible us := by
  rw [legible_append_loose ts us rfl, legible_space]

@[simp] theorem legible_append_symbol (s : String) (ts us : List Token) :
    Legible (ts ++ .symbol s :: us) ↔
      Legible ts ∧ (Token.symbol s).regular = true ∧ Legible us := by
  rw [legible_append_loose ts us rfl, legible_symbol]

@[simp] theorem placeholders_append (ls ms : List Lexeme) :
    placeholders (ls ++ ms) = placeholders ls + placeholders ms := List.count_append

/-- Legible tokens are read as their lexemes before any text that starts apart. -/
theorem lex_print_append {ts us : List Token} (legible : Legible ts)
    (apart : LexState.startsApart (Token.print us).toList) :
    lex backslash (Token.print (ts ++ us)) = lexemes backslash ts ++ lex backslash (Token.print us) := by
  induction ts with
  | nil => rfl
  | cons t ts ih =>
    have text : (Token.print (t :: ts ++ us)).toList = t.text.toList ++ (Token.print (ts ++ us)).toList := by
      simp [Token.print, String.join_cons]
    have behind : t.solid = true → LexState.startsApart (Token.print (ts ++ us)).toList := by
      intro solid
      cases ts with
      | nil => exact apart
      | cons u vs =>
        have loose : u.solid = false := by simpa [solid] using legible.2.1
        have starts := Token.startsApart_text (Token.print (vs ++ us)).toList legible.tail.regular loose
        simpa [Token.print, String.join_cons] using starts
    have rest := ih legible.tail
    simp only [lex] at rest ⊢
    rw [text, Token.lexFrom_text legible.regular behind, rest, lexemes_cons, List.append_assoc]

/-- The text of legible tokens is read as their lexemes. -/
theorem lex_print {ts : List Token} (legible : Legible ts) :
    lex backslash (Token.print ts) = lexemes backslash ts := by
  have nothing : LexState.startsApart (Token.print []).toList := by
    intro c head
    cases head
  calc
    lex backslash (Token.print ts) = lex backslash (Token.print (ts ++ [])) := by rw [List.append_nil]
    _ = lexemes backslash ts ++ lex backslash (Token.print []) := lex_print_append legible nothing
    _ = lexemes backslash ts := List.append_nil _

/-- The placeholders that are read are those that were written. -/
theorem placeholders_lexemes {ts : List Token} (regular : ∀ t ∈ ts, t.regular = true) :
    placeholders (lexemes backslash ts) = ts.count .placeholder := by
  induction ts with
  | nil => rfl
  | cons t ts ih =>
    have rest := ih fun u member => regular u (by simp [member])
    have first := regular t (by simp)
    simp only [placeholders, lexemes_cons, List.count_append] at rest ⊢
    rw [rest]
    cases t with
    | word s =>
      have none : ((Token.word s).lexemes backslash).count (.symbol '?') = 0 := by
        rw [List.count_eq_zero]
        simp only [Token.lexemes, lex, LexState.lexFrom, List.mem_append, not_or]
        refine ⟨LexState.not_mem_run_unquoted [] _ (Token.unquoted_of_regular first), ?_⟩
        obtain ⟨last, -, ended⟩ := LexState.run_unquoted false [] s.toList
          fun c member => (Token.unquoted_of_regular first c member).1
        rw [ended]
        simp only [LexState.finish, endWord]
        split <;> simp
      simp [none]
    | symbol s =>
      have none : ((Token.symbol s).lexemes backslash).count (.symbol '?') = 0 := by
        rw [List.count_eq_zero]
        simp only [Token.lexemes, List.mem_map, Lexeme.symbol.injEq]
        rintro ⟨c, member, rfl⟩
        exact ((Token.symbols_of_regular first).2 '?' member).2 rfl
      simp [none]
    | placeholder => simp [Token.lexemes, Nat.add_comm]
    | space | name d s | literal s => simp [Token.lexemes]

end Legible

end RowQuery.Sql
