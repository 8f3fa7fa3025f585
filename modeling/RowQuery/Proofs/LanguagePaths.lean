import RowQuery.Proofs.Legibility

/-!
# Paths to languages

The text of a language is read at a path into a JSON map. The path is a dollar sign, a dot and the
language as a JSON string, and stands in the SQL text as a literal. So a language is escaped twice: as
a JSON string, where it is put between double quotes, and as a literal, where the path is put between
single quotes.

The literal is read as the path, whatever the language is. The path selects the language only if the
language has no backslash: double quotes are escaped in it, but the backslashes in front of them are
not, and a backslash is read together with what follows it.
-/

namespace RowQuery.Sql

/-! ## JSON strings -/

/-- The character that a backslash and a character stand for. -/
def shortEscape? : Char → Option Char
  | '"' => some '"'
  | '\\' => some '\\'
  | '/' => some '/'
  | 'b' => some '\x08'
  | 'f' => some '\x0c'
  | 'n' => some '\n'
  | 'r' => some '\r'
  | 't' => some '\t'
  | _ => none

/-- The value of a hexadecimal digit. -/
def hexDigit? (c : Char) : Option Nat :=
  if '0' ≤ c ∧ c ≤ '9' then some (c.toNat - '0'.toNat)
  else if 'a' ≤ c ∧ c ≤ 'f' then some (c.toNat - 'a'.toNat + 10)
  else if 'A' ≤ c ∧ c ≤ 'F' then some (c.toNat - 'A'.toNat + 10)
  else none

/-- The number that four hexadecimal digits denote. -/
def hexUnit? : List Char → Option Nat
  | [a, b, c, d] => do
    return (((← hexDigit? a) * 16 + (← hexDigit? b)) * 16 + (← hexDigit? c)) * 16 + (← hexDigit? d)
  | _ => none

/-- The spellings of a character in a JSON string. Where `strict` is set, control characters have to be
    escaped. -/
inductive JsonChar (strict : Bool) : List Char → Char → Prop where
  | plain {c : Char} (notQuote : c ≠ '"') (notBackslash : c ≠ '\\')
      (visible : strict = true → 0x20 ≤ c.toNat) : JsonChar strict [c] c
  | short {e c : Char} (escape : shortEscape? e = some c) : JsonChar strict ['\\', e] c
  | unit {digits : List Char} {c : Char} (value : hexUnit? digits = some c.toNat) :
      JsonChar strict ('\\' :: 'u' :: digits) c
  /-- Two units, a high and a low one, are one character beyond the first 65536. -/
  | pair {high low : List Char} {h l : Nat} {c : Char} (first : hexUnit? high = some h)
      (second : hexUnit? low = some l) (isHigh : 0xD800 ≤ h ∧ h < 0xDC00) (isLow : 0xDC00 ≤ l ∧ l < 0xE000)
      (value : c.toNat = 0x10000 + (h - 0xD800) * 0x400 + (l - 0xDC00)) :
      JsonChar strict ('\\' :: 'u' :: (high ++ '\\' :: 'u' :: low)) c

/-- What may stand between the quotes of a JSON string, and the text it is read as. -/
inductive JsonText (strict : Bool) : List Char → List Char → Prop where
  | nil : JsonText strict [] []
  | cons {spelling body text : List Char} {c : Char} (first : JsonChar strict spelling c)
      (rest : JsonText strict body text) : JsonText strict (spelling ++ body) (c :: text)

/-- A path that consists of one key, which is written as a JSON string. -/
def Selects (strict : Bool) (path key : String) : Prop :=
  ∃ body, path.toList = ['$', '.', '"'] ++ body ++ ['"'] ∧ JsonText strict body key.toList

/-! ## Languages as JSON strings -/

/-- A text with a backslash before each double quote. -/
def escapeQuotes (cs : List Char) : List Char := cs.flatMap fun c => if c = '"' then ['\\', '"'] else [c]

theorem toList_languagePath (language : String) :
    (languagePath language).toList = ['$', '.', '"'] ++ escapeQuotes language.toList ++ ['"'] := by
  simp [languagePath, escapeQuotes]

theorem selects_languagePath {strict : Bool} {language key : String} :
    Selects strict (languagePath language) key ↔
      JsonText strict (escapeQuotes language.toList) key.toList := by
  simp [Selects, toList_languagePath]

theorem hexUnit?_length {digits : List Char} {n : Nat} (value : hexUnit? digits = some n) :
    digits.length = 4 := by
  unfold hexUnit? at value
  split at value
  · rfl
  · cases value

/-- A spelling is at least as long as one character and its double quotes together, and longer if it
    is that of a backslash. -/
theorem JsonChar.length_spelling {strict : Bool} {spelling : List Char} {c : Char}
    (char : JsonChar strict spelling c) :
    1 + spelling.count '"' ≤ spelling.length ∧
      (1 + spelling.count '"' = spelling.length → c ≠ '\\') := by
  cases char with
  | plain notQuote notBackslash _ => simp [notQuote, notBackslash]
  | @short e c escape =>
    by_cases quote : e = '"'
    · subst quote
      cases escape
      decide
    · simp [quote]
  | @unit digits c value =>
    have length := hexUnit?_length value
    have quotes := digits.count_le_length (a := '"')
    simp
    omega
  | @pair high low h l c first second =>
    have firstLength := hexUnit?_length first
    have secondLength := hexUnit?_length second
    have quotes := high.count_le_length (a := '"')
    have others := low.count_le_length (a := '"')
    simp
    omega

/-- A text is read from at least as many characters as it and the double quotes in them have together.
    If they are not more, no backslash is read. -/
theorem JsonText.length_body {strict : Bool} {body text : List Char} (read : JsonText strict body text) :
    text.length + body.count '"' ≤ body.length ∧
      (text.length + body.count '"' = body.length → '\\' ∉ text) := by
  induction read with
  | nil => simp
  | cons first rest ih =>
    have spelling := first.length_spelling
    simp only [List.length_cons, List.length_append, List.count_append, List.mem_cons, not_or]
    refine ⟨by omega, ?_⟩
    intro tight
    exact ⟨(spelling.2 (by omega)).symm, ih.2 (by omega)⟩

theorem length_escapeQuotes (cs : List Char) :
    (escapeQuotes cs).length = cs.length + (escapeQuotes cs).count '"' := by
  induction cs with
  | nil => rfl
  | cons c cs ih =>
    unfold escapeQuotes at ih ⊢
    rw [List.flatMap_cons]
    by_cases quote : c = '"'
    · simp [quote, ih]
      omega
    · simp [quote, ih]
      omega

/-- A character other than a backslash or a double quote is read alone. -/
theorem jsonText_cons_plain {strict : Bool} {c : Char} {cs text : List Char} (notBackslash : c ≠ '\\')
    (notQuote : c ≠ '"') :
    JsonText strict (c :: cs) text ↔
      (strict = true → 0x20 ≤ c.toNat) ∧ ∃ rest, text = c :: rest ∧ JsonText strict cs rest := by
  constructor
  · generalize whole : c :: cs = body
    intro read
    cases read with
    | nil => cases whole
    | cons first rest =>
      cases first with
      | plain _ _ visible =>
        cases whole
        exact ⟨visible, _, rfl, rest⟩
      | short | unit | pair => exact absurd (List.cons.inj whole).1 notBackslash
  · rintro ⟨visible, rest, rfl, read⟩
    exact .cons (.plain notQuote notBackslash visible) read

/-- A double quote behind a backslash is read as a double quote. -/
theorem jsonText_cons_quote {strict : Bool} {cs text : List Char} :
    JsonText strict ('\\' :: '"' :: cs) text ↔ ∃ rest, text = '"' :: rest ∧ JsonText strict cs rest := by
  constructor
  · generalize whole : '\\' :: '"' :: cs = body
    intro read
    cases read with
    | nil => cases whole
    | cons first rest =>
      cases first with
      | plain _ notBackslash => exact absurd (List.cons.inj whole).1.symm notBackslash
      | short escape =>
        cases whole
        cases escape
        exact ⟨_, rfl, rest⟩
      | unit | pair => simp at whole
  · rintro ⟨rest, rfl, read⟩
    exact .cons (.short rfl) read

/-- A backslash at the end is not followed by what it needs. -/
theorem not_jsonText_backslash {strict : Bool} {text : List Char} : ¬ JsonText strict ['\\'] text := by
  generalize whole : ['\\'] = body
  intro read
  cases read with
  | nil => cases whole
  | cons first _ =>
    cases first with
    | plain _ notBackslash => exact absurd (List.cons.inj whole).1.symm notBackslash
    | short | unit | pair => simp at whole

/-- A character other than a backslash is read as what it was before it was escaped. -/
theorem jsonText_escapeQuotes_cons {strict : Bool} {c : Char} {cs text : List Char} (notBackslash : c ≠ '\\') :
    JsonText strict (escapeQuotes (c :: cs)) text ↔
      (strict = true → 0x20 ≤ c.toNat) ∧ ∃ rest, text = c :: rest ∧ JsonText strict (escapeQuotes cs) rest := by
  by_cases quote : c = '"'
  · subst quote
    have visible : 0x20 ≤ '"'.toNat := by decide
    rw [show escapeQuotes ('"' :: cs) = '\\' :: '"' :: escapeQuotes cs from rfl, jsonText_cons_quote]
    simp only [visible, implies_true, true_and]
  · rw [show escapeQuotes (c :: cs) = c :: escapeQuotes cs by simp [escapeQuotes, quote],
      jsonText_cons_plain notBackslash quote]

/-- Without backslashes, an escaped text is read as what it was, and as nothing else. -/
theorem jsonText_escapeQuotes_of_free {strict : Bool} {cs text : List Char} (free : '\\' ∉ cs) :
    JsonText strict (escapeQuotes cs) text ↔
      text = cs ∧ (strict = true → ∀ c ∈ cs, 0x20 ≤ c.toNat) := by
  induction cs generalizing text with
  | nil =>
    constructor
    · generalize whole : escapeQuotes [] = body
      intro read
      cases read with
      | nil => simp
      | cons first _ => cases first <;> cases whole
    · rintro ⟨rfl, -⟩
      exact .nil
  | cons c cs ih =>
    rw [List.mem_cons, not_or] at free
    rw [jsonText_escapeQuotes_cons (Ne.symm free.1)]
    constructor
    · rintro ⟨visible, rest, rfl, read⟩
      obtain ⟨rfl, others⟩ := (ih free.2).mp read
      exact ⟨rfl, fun on => List.forall_mem_cons.mpr ⟨visible on, others on⟩⟩
    · rintro ⟨rfl, visible⟩
      refine ⟨fun on => visible on c (by simp), cs, rfl, (ih free.2).mpr ⟨rfl, ?_⟩⟩
      exact fun on d member => visible on d (by simp [member])

/-- An escaped text is read as what it was only if it has no backslash. -/
theorem jsonText_escapeQuotes_self {strict : Bool} {cs : List Char} :
    JsonText strict (escapeQuotes cs) cs ↔
      '\\' ∉ cs ∧ (strict = true → ∀ c ∈ cs, 0x20 ≤ c.toNat) := by
  constructor
  · intro read
    -- The escapes of the double quotes are all the room there is.
    have free : '\\' ∉ cs := read.length_body.2 (length_escapeQuotes cs).symm
    exact ⟨free, ((jsonText_escapeQuotes_of_free free).mp read).2⟩
  · rintro ⟨free, visible⟩
    exact (jsonText_escapeQuotes_of_free free).mpr ⟨rfl, visible⟩

/-! ## The literal -/

/-- What a literal stands for. -/
def Lexeme.literal? : Lexeme → Option String
  | .quoted quote body => if quote = '\'' then some body else none
  | _ => none

/-- The names of a column are no literals. -/
theorem literals_column (d : Dialect) (table : Option String) (name : String) :
    (lexemes true (Column.tokens d { table, name })).filterMap Lexeme.literal? = [] := by
  have notSingle : d.quote ≠ '\'' := by cases d <;> decide
  cases table <;> simp [Column.tokens, Token.lexemes_name, Token.lexemes_symbol, Lexeme.literal?, notSingle]

/-- The text of a language in a column has one literal, which is read as the path. -/
theorem literals_language (d : Dialect) (table : Option String) (name language : String) :
    (lex true ((Expr.language { table, name } language).text d)).filterMap Lexeme.literal? =
      [languagePath language] := by
  have plain : Column.Plain { table, name } := Column.plain_of_quoted rfl
  have marked : Marked ((Expr.language { table, name } language).tokens d) 0 := Expr.marked d plain
  have read : lexemes true ((Expr.language { table, name } language).tokens d) =
      .word "JSON_UNQUOTE" :: .symbol '(' :: .word "JSON_EXTRACT" :: .symbol '(' ::
        (lexemes true (Column.tokens d { table, name }) ++
          .symbol ',' :: .quoted '\'' (languagePath language) :: .symbol ')' :: .symbol ')' :: []) := by
    simp +decide [Expr.tokens, languageTokens, Token.comma, Token.lexemes_word, Token.lexemes_symbol,
      Token.lexemes_literal]
  rw [Expr.text, lex_print marked.legible, read]
  simp only [List.filterMap_cons, List.filterMap_append, literals_column]
  rfl

/-- The text of a language in a column has one literal. It stands for a path that selects the language
    if and only if the language has no backslash, nor a control character where these have to be
    escaped; and then it selects no other key. -/
theorem selects_language_iff (strict : Bool) (d : Dialect) (table : Option String)
    (name language : String) :
    ∃ path,
      (lex true ((Expr.language { table, name } language).text d)).filterMap Lexeme.literal? = [path] ∧
      (Selects strict path language ↔
        '\\' ∉ language.toList ∧ (strict = true → ∀ c ∈ language.toList, 0x20 ≤ c.toNat)) ∧
      (Selects strict path language → ∀ key, Selects strict path key → key = language) := by
  refine ⟨_, literals_language d table name language, ?_, ?_⟩
  · rw [selects_languagePath, jsonText_escapeQuotes_self]
  · intro selected key other
    rw [selects_languagePath] at selected other
    have free := (jsonText_escapeQuotes_self.mp selected).1
    exact String.toList_inj.mp ((jsonText_escapeQuotes_of_free free).mp other).1

/-- A backslash is read together with what follows it: the path of the language `a\b` selects a key
    that ends in a backspace, and that of `a\` selects nothing. -/
theorem selects_other_key :
    (lex true ((Expr.language (.of "book" "title") "a\\b").text .mysql)).filterMap Lexeme.literal? =
        [languagePath "a\\b"] ∧
      Selects false (languagePath "a\\b") "a\x08" ∧ ¬ Selects false (languagePath "a\\b") "a\\b" ∧
      ∀ key, ¬ Selects false (languagePath "a\\") key := by
  refine ⟨literals_language .mysql (some "book") "title" "a\\b", ?_, ?_, ?_⟩
  · rw [selects_languagePath]
    have backspace : JsonText false ['\\', 'b'] ['\x08'] := .cons (.short rfl) .nil
    exact .cons (.plain (by decide) (by decide) (by simp)) backspace
  · rw [selects_languagePath, jsonText_escapeQuotes_self]
    decide
  · intro key
    rw [selects_languagePath]
    intro read
    obtain ⟨-, rest, -, last⟩ :=
      (jsonText_cons_plain (show 'a' ≠ '\\' by decide) (show 'a' ≠ '"' by decide)).mp read
    exact not_jsonText_backslash last

end RowQuery.Sql
