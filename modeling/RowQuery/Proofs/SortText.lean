import RowQuery.Proofs.OwnerRestriction
import RowQuery.Proofs.Outline
import RowQuery.Proofs.RelationFilters

/-!
# The text of an order

However a sort is spelled, the order that it is compiled to is read as one clause: a key and a direction.
The key is a column that a schema declares, or a text inside of it, and what is left of the sort's path
stands in one literal, whatever a backslash means to the reader. Where sorts are lenient, the key may be the
sort's own dotted name, of word characters only.
-/

namespace RowQuery.Text

/-- The parts of a text with a separator between each two are the text. -/
theorem intercalate_splitChars (sep : Char) (cs : List Char) :
    [sep].intercalate ((splitChars sep cs).1 :: (splitChars sep cs).2) = cs := by
  induction cs with
  | nil => rfl
  | cons c cs ih =>
    simp only [splitChars]
    by_cases separator : c = sep
    · rw [if_pos separator, List.intercalate_cons_cons, ih, separator]
      rfl
    · rw [if_neg separator]
      cases rest : (splitChars sep cs).2 with
      | nil => simpa [rest] using ih
      | cons part parts => simpa [rest, List.intercalate_cons_cons] using ih

theorem mem_of_mem_intercalate {α : Type} {between : List α} {parts : List (List α)} {x : α}
    (member : x ∈ between.intercalate parts) : x ∈ between ∨ ∃ part ∈ parts, x ∈ part := by
  induction parts with
  | nil => cases member
  | cons part parts ih =>
    cases parts with
    | nil => exact .inr ⟨part, by simp, by simpa using member⟩
    | cons next parts =>
      rw [List.intercalate_cons_cons, List.append_assoc, List.mem_append, List.mem_append] at member
      rcases member with inside | separator | later
      · exact .inr ⟨part, by simp, inside⟩
      · exact .inl separator
      · rcases ih later with separator | ⟨other, inParts, inside⟩
        · exact .inl separator
        · exact .inr ⟨other, List.mem_cons_of_mem _ inParts, inside⟩

theorem mem_intercalate_of_mem {α : Type} (between : List α) {parts : List (List α)} {part : List α} {x : α}
    (inParts : part ∈ parts) (inside : x ∈ part) : x ∈ between.intercalate parts := by
  induction parts with
  | nil => cases inParts
  | cons first parts ih =>
    cases parts with
    | nil => simpa [← List.mem_singleton.mp inParts] using inside
    | cons next parts =>
      rw [List.intercalate_cons_cons, List.append_assoc, List.mem_append, List.mem_append]
      rcases List.mem_cons.mp inParts with rfl | later
      · exact .inl inside
      · exact .inr (.inr (ih later))

/-- A trimmed text does not end in a blank. -/
theorem isBlank_of_trimChars {cs : List Char} {c : Char} (last : (trimChars cs).getLast? = some c) :
    isBlank c = false := by
  rw [trimChars, trimBy, List.getLast?_reverse] at last
  have first := List.head?_dropWhile_not isBlank (cs.dropWhile isBlank).reverse
  rw [last] at first
  simpa using first

end RowQuery.Text

namespace RowQuery

theorem Path.dotted_segments (s : String) : Path.dotted (Path.ofText s).segments = s := by
  apply String.toList_inj.mp
  have parts := Text.intercalate_splitChars '.' s.toList
  simpa [Path.dotted, Path.segments, Path.ofText, String.toList_intercalate, Function.comp_def] using parts

/-- The name of a sort that was read does not end in a newline. -/
theorem Sorting.getLast?_name {s : String} {sort : Sorting} (parsed : Sorting.parse s = .ok sort) :
    sort.name.toList.getLast? ≠ some '\n' := by
  simp only [Sorting.parse] at parsed
  split at parsed
  · cases parsed
  · obtain rfl := Except.ok.inj parsed
    intro newline
    rw [String.toList_ofList] at newline
    exact absurd (Text.isBlank_of_trimChars newline) (by decide)

end RowQuery

namespace RowQuery.Sql

/-! ## Clauses between commas -/

/-- Divides lexemes that start at some depth in brackets at the commas of depth zero: what comes first, then
    what follows each comma. -/
def divide : (depth : Nat) → List Lexeme → List Lexeme × List (List Lexeme)
  | _, [] => ([], [])
  | depth, l :: ls =>
    let behind := divide ((l.depth? depth).getD 0) ls
    if depth = 0 ∧ l = .symbol ',' then ([], behind.1 :: behind.2) else (l :: behind.1, behind.2)

/-- The clauses between the commas outside of brackets; none in an empty text. -/
def clauses (ls : List Lexeme) : List (List Lexeme) :=
  if ls.isEmpty then [] else (divide 0 ls).1 :: (divide 0 ls).2

/-- Lexemes that no comma divides, whatever follows them. -/
def Whole (ls : List Lexeme) : Prop :=
  ∀ rest, divide 0 (ls ++ rest) = (ls ++ (divide 0 rest).1, (divide 0 rest).2)

variable {ls ms : List Lexeme}

theorem Whole.append (first : Whole ls) (second : Whole ms) : Whole (ls ++ ms) := by
  intro rest
  rw [List.append_assoc, first, second]
  simp

/-- Lexemes without brackets and commas are whole. -/
theorem whole_of_flat (flat : ∀ l ∈ ls, l ≠ .symbol ',' ∧ l ≠ .symbol '(' ∧ l ≠ .symbol ')') : Whole ls := by
  induction ls with
  | nil => exact fun _ => rfl
  | cons l ls ih =>
    obtain ⟨notComma, notOpen, notClose⟩ := flat l (by simp)
    have rest := ih fun m member => flat m (by simp [member])
    intro more
    have level : l.depth? 0 = some 0 := by rw [Lexeme.depth?, if_neg notOpen, if_neg notClose]
    rw [List.cons_append, divide, level, Option.getD_some, rest, if_neg (fun both => notComma both.2)]
    rfl

theorem divide_intercalate {piece : List Lexeme} {pieces : List (List Lexeme)}
    (whole : ∀ ls ∈ piece :: pieces, Whole ls) :
    divide 0 ([Lexeme.symbol ','].intercalate (piece :: pieces)) = (piece, pieces) := by
  induction pieces generalizing piece with
  | nil => simpa [divide] using whole piece (by simp) []
  | cons next pieces ih =>
    have rest := ih fun ls member => whole ls (List.mem_cons_of_mem _ member)
    rw [List.intercalate_cons_cons, List.append_assoc, whole piece (by simp), List.singleton_append, divide]
    have level : ((Lexeme.symbol ',').depth? 0).getD 0 = 0 := rfl
    simp [level, rest]

/-- Whole clauses, none of them empty, are found again behind commas. -/
theorem clauses_intercalate {pieces : List (List Lexeme)} (whole : ∀ ls ∈ pieces, Whole ls)
    (some : ∀ ls ∈ pieces, ls ≠ []) : clauses ([Lexeme.symbol ','].intercalate pieces) = pieces := by
  cases pieces with
  | nil => rfl
  | cons piece pieces =>
    have notEmpty : ([Lexeme.symbol ','].intercalate (piece :: pieces)).isEmpty = false := by
      have first := some piece (by simp)
      cases pieces <;> cases piece <;> simp_all [List.intercalate_cons_cons]
    rw [clauses, notEmpty, divide_intercalate whole]
    rfl

/-! ## Keys -/

/-- What a literal with a text is read as: the text, where a backslash escapes, else the text with every
    backslash twice. -/
def literalRead (backslash : Bool) (text : String) : Lexeme :=
  .quoted '\'' (if backslash then text else String.ofList (double '\\' text.toList))

/-- A qualified column. -/
def columnRead (d : Dialect) (table name : String) : List Lexeme :=
  [.quoted d.quote table, .symbol '.', .quoted d.quote name]

/-- The text at a path into JSON. -/
def jsonRead (column : List Lexeme) (path : Lexeme) : List Lexeme :=
  [.word "CAST", .symbol '('] ++ column ++
    [.symbol '-', .symbol '>', path, .word "AS", .word "CHAR", .symbol ')']

/-- The text at a path into a map of languages. -/
def languageRead (column : List Lexeme) (path : Lexeme) : List Lexeme :=
  [.word "JSON_UNQUOTE", .symbol '(', .word "JSON_EXTRACT", .symbol '('] ++ column ++
    [.symbol ',', path, .symbol ')', .symbol ')']

/-- Words with a dot between each two. -/
def dottedRead (words : List String) : List Lexeme :=
  [Lexeme.symbol '.'].intercalate (words.map fun w => [.word w])

theorem whole_jsonRead (d : Dialect) (table name : String) (q : Char) (s : String) :
    Whole (jsonRead (columnRead d table name) (.quoted q s)) := fun _ => rfl

theorem whole_languageRead (d : Dialect) (table name : String) (q : Char) (s : String) :
    Whole (languageRead (columnRead d table name) (.quoted q s)) := fun _ => rfl

theorem whole_dottedRead (words : List String) : Whole (dottedRead words) := by
  apply whole_of_flat
  intro l member
  rcases Text.mem_of_mem_intercalate member with dot | ⟨piece, inPieces, inside⟩
  · simp [List.mem_singleton.mp dot]
  · obtain ⟨w, -, rfl⟩ := List.mem_map.mp inPieces
    simp [List.mem_singleton.mp inside]

variable (d : Dialect) (backslash : Bool)

theorem lexemes_literalRead (s : String) :
    (Token.literal s).lexemes backslash = [literalRead backslash s] := by
  cases backslash <;> simp [Token.lexemes, literalRead, LexState.literalBody]

theorem lexemes_exprJson (table name keys : String) :
    lexemes backslash ((Expr.jsonText (.of table name) keys).tokens d) =
      jsonRead (columnRead d table name) (literalRead backslash (keyPath keys)) := by
  simp +decide [Expr.tokens, jsonTextTokens, Column.of, Column.tokens, lexemes_spaced, Token.lexemes_word,
    Token.lexemes_symbol, Token.lexemes_name, lexemes_literalRead, jsonRead, columnRead]

theorem lexemes_exprLanguage (table name code : String) :
    lexemes backslash ((Expr.language (.of table name) code).tokens d) =
      languageRead (columnRead d table name) (literalRead backslash (languagePath code)) := by
  simp +decide [Expr.tokens, languageTokens, Token.comma, Column.of, Column.tokens, Token.lexemes_word,
    Token.lexemes_symbol, Token.lexemes_name, lexemes_literalRead, languageRead, columnRead]

theorem separator_dot : Separator [.symbol "."] := by
  intro ps qs m n left right
  constructor
  · simp +decide [left.legible, right.legible]
  · simp [left.count, right.count]

/-- A dotted name of words is read as these words. -/
theorem lex_dotted {words : List String} (each : ∀ w ∈ words, isWord w = true) :
    lex backslash (Path.dotted words) = dottedRead words := by
  have marked : Marked (Token.joined [.symbol "."] (words.map fun w => [.word w])) 0 := by
    apply marked_joined_zero separator_dot
    intro w member
    exact ⟨Token.regular_word (each w member), rfl⟩
  have text : Token.print (Token.joined [.symbol "."] (words.map fun w => [.word w])) =
      Path.dotted words := by
    have one : ∀ w, Token.print [.word w] = w := by simp [Token.print, Token.text, String.join]
    rw [print_joined, List.map_map, show Token.print [.symbol "."] = "." from rfl]
    simp [Function.comp_def, one, Path.dotted]
  rw [← text, lex_print marked.legible, lexemes_intercalate, List.map_map, dottedRead]
  congr 1
  apply List.map_congr_left
  intro w member
  simp [Token.lexemes_word (each w member)]

end RowQuery.Sql

namespace RowQuery.Compile

open RowQuery.Schema RowQuery.Sql RowQuery.Join

/-- The segments of a path that a walk crosses by joins, and the site that it comes to. -/
inductive SortSite.Leads (ctx : Context) : SortSite → List String → SortSite → Prop where
  | here (site : SortSite) : SortSite.Leads ctx site [] site
  | across {site last : SortSite} {head : String} {crossed : List String} {f : Field} {related : Schema}
      {config : Config} (found : site.schema.get? head = some f) (relation : f.isRelation = true)
      (target : (ctx.related f).result = .ok related)
      (configured : sortConfig ctx site.table (site.walked ++ head) f = .ok config)
      (rest : SortSite.Leads ctx (site.behind related (site.walked ++ head) config) crossed last) :
      SortSite.Leads ctx site (head :: crossed) last

/-- The language that translated fields are sorted by: the context's own, or the default one where that is
    the code for all. -/
def Context.sortLanguage (ctx : Context) : Detail :=
  if ctx.localizer.isAll ctx.localizer.ownLanguage then ctx.settings.defaultLanguage
  else ctx.localizer.ownLanguage

/-- The keys that the segments of a sort may be read as. `root` is where sorts start, and columns are those of
    fields that the segments lead to. -/
inductive KeyRead (ctx : Context) (strict : Bool) (root : SortSite) (backslash : Bool) :
    List String → List Lexeme → Prop where
  /-- A column. -/
  | column {crossed : List String} {site : SortSite} {head : String} {f : Field}
      (leads : SortSite.Leads ctx root crossed site) (found : site.schema.get? head = some f)
      (column : f.isRelation = false) :
      KeyRead ctx strict root backslash (crossed ++ [head]) (columnRead ctx.style site.table f.column)
  /-- The language of a translated column that sorts are by. -/
  | translated {crossed : List String} {site : SortSite} {head code : String} {f : Field}
      (leads : SortSite.Leads ctx root crossed site) (found : site.schema.get? head = some f)
      (column : f.isRelation = false) (translated : f.translated = true)
      (language : ctx.sortLanguage = .text code) :
      KeyRead ctx strict root backslash (crossed ++ [head])
        (languageRead (columnRead ctx.style site.table f.column) (literalRead backslash (languagePath code)))
  /-- The language of a translated column that the last segment names. -/
  | language {crossed : List String} {site : SortSite} {head code : String} {f : Field}
      (leads : SortSite.Leads ctx root crossed site) (found : site.schema.get? head = some f)
      (column : f.isRelation = false) (translated : f.translated = true) :
      KeyRead ctx strict root backslash (crossed ++ [head, code])
        (languageRead (columnRead ctx.style site.table f.column) (literalRead backslash (languagePath code)))
  /-- What the remaining segments lead to inside of a JSON column. -/
  | json {crossed rest : List String} {site : SortSite} {head : String} {f : Field}
      (leads : SortSite.Leads ctx root crossed site) (found : site.schema.get? head = some f)
      (column : f.isRelation = false) (json : f.isJson = true) (remaining : rest ≠ []) :
      KeyRead ctx strict root backslash (crossed ++ head :: rest)
        (jsonRead (columnRead ctx.style site.table f.column)
          (literalRead backslash (keyPath (Path.dotted rest))))
  /-- The segments themselves, where sorts are lenient. -/
  | verbatim {segments : List String} (lenient : strict = false)
      (words : ∀ w ∈ segments, isWord w = true) :
      KeyRead ctx strict root backslash segments (dottedRead segments)

/-- The end of a sort's walk that comes to a key. -/
theorem ends_of_keyed {ctx : Context} {mode : SortMode} {name : String} {rest : List String}
    {head : String} {site : SortSite} {e : Expr} {joins : List JoinClause}
    (walk : Keyed ctx mode name rest head site e joins) :
    ∃ crossed last final inner f, head :: rest = crossed ++ final :: inner ∧ SortSite.Leads ctx site crossed last ∧
      last.schema.get? final = some f ∧ f.isRelation = false ∧
      (inner = [] ∧ ctx.localizer.sortExpr f (some last.table) .null = .ok e ∨
        inner ≠ [] ∧ innerExpr ctx last.schema.entity name f (some last.table) inner = .ok e) := by
  induction walk with
  | leaf shallow found column expr =>
    exact ⟨[], _, _, [], _, rfl, .here _, get?_of_field found, column, .inl ⟨rfl, expr⟩⟩
  | inner shallow found column expr =>
    exact ⟨[], _, _, _, _, rfl, .here _, get?_of_field found, column, .inr ⟨by simp, expr⟩⟩
  | joined shallow found relation target configured clause rest ih =>
    obtain ⟨crossed, last, final, inner, f, same, leads, ends⟩ := ih
    exact ⟨_ :: crossed, last, final, inner, f, by rw [same]; rfl,
      .across (get?_of_field found) relation target configured leads, ends⟩

/-- What a field is read as: its column, or the text of a language. -/
theorem expr_cases {tr : Localizer} {f : Field} {table : Option String} {language : Detail} {e : Expr}
    (ok : tr.expr f table language = .ok e) :
    e = .column { table, name := f.column } ∨ ∃ code, f.translated = true ∧
      tr.languageOr language = .text code ∧ tr.isAll (tr.languageOr language) = false ∧
      e = .language { table, name := f.column } code := by
  simp only [Localizer.expr, Localizer.column, bind_eq_ok] at ok
  obtain ⟨_, ⟨_, _, same⟩, ok⟩ := ok
  cases same
  split at ok
  case isTrue read =>
    simp only [Bool.and_eq_true, Bool.not_eq_true'] at read
    obtain ⟨code, quoted, same⟩ := bind_eq_ok.mp ok
    cases same
    exact .inr ⟨code, read.1.1, quotable_eq_ok.mp quoted, read.2, rfl⟩
  case isFalse =>
    cases ok
    exact .inl rfl

/-- What a field is sorted by: its column, or the text of the language that sorts are by. -/
theorem sortExpr_eq_ok {ctx : Context} {f : Field} {table : String} {e : Expr}
    (ok : ctx.localizer.sortExpr f (some table) .null = .ok e) :
    e = .column (.of table f.column) ∨ ∃ code, f.translated = true ∧ ctx.sortLanguage = .text code ∧
      e = .language (.of table f.column) code := by
  rcases expr_cases ok with column | ⟨code, translated, language, notAll, text⟩
  · exact .inl column
  refine .inr ⟨code, translated, ?_, text⟩
  have own : ctx.localizer.languageOr .null = ctx.localizer.ownLanguage := rfl
  have again : ctx.localizer.languageOr ctx.localizer.ownLanguage = ctx.localizer.ownLanguage :=
    ite_self _
  rw [own, translated, Bool.true_and] at language notAll
  unfold Context.sortLanguage
  by_cases all : ctx.localizer.isAll ctx.localizer.ownLanguage = true
  · rw [if_pos all] at language notAll ⊢
    unfold Localizer.languageOr at language notAll
    -- A default language that is none would leave the code for all.
    split at notAll
    case isTrue => exact absurd all (by simp [notAll])
    case isFalse some => rwa [if_neg some] at language
  · rw [if_neg all] at language ⊢
    rwa [again] at language

theorem innerExpr_cases {ctx : Context} {entity path : String} {f : Field} {table : String}
    {inner : List String} {e : Expr} (ok : innerExpr ctx entity path f (some table) inner = .ok e) :
    (f.isJson = true ∧ e = .jsonText (.of table f.column) (Path.dotted inner)) ∨
      ∃ code, inner = [code] ∧ f.translated = true ∧ e = .language (.of table f.column) code := by
  simp only [innerExpr, Context.column, bind_eq_ok] at ok
  obtain ⟨_, ⟨_, _, same⟩, ok⟩ := ok
  cases same
  split at ok
  case isTrue json =>
    cases ok
    exact .inl ⟨json, rfl⟩
  case isFalse =>
    split at ok
    case h_1 code translated =>
      cases ok
      exact .inr ⟨code, rfl, translated, rfl⟩
    case h_2 => cases ok

/-- The key of a sort's walk is read as one of the keys. -/
theorem keyRead_of_keyed {ctx : Context} {mode : SortMode} {name : String} {rest : List String}
    {head : String} {site : SortSite} {e : Expr} {joins : List JoinClause} (strict backslash : Bool)
    (walk : Keyed ctx mode name rest head site e joins) :
    KeyRead ctx strict site backslash (head :: rest) (lexemes backslash (e.tokens ctx.style)) := by
  obtain ⟨crossed, last, final, inner, f, same, leads, found, column, ends⟩ := ends_of_keyed walk
  rw [same]
  rcases ends with ⟨rfl, sorted⟩ | ⟨remaining, inside⟩
  · rcases sortExpr_eq_ok sorted with rfl | ⟨code, translated, language, rfl⟩
    · exact .column leads found column
    · rw [lexemes_exprLanguage]
      exact .translated leads found column translated language
  · rcases innerExpr_cases inside with ⟨json, rfl⟩ | ⟨code, rfl, translated, rfl⟩
    · rw [lexemes_exprJson]
      exact .json leads found column json remaining
    · rw [lexemes_exprLanguage]
      exact .language leads found column translated

/-- The segments of a plain name that does not end in a newline are words. -/
theorem isWord_of_isPlainName {s : String} (plain : isPlainName s = true)
    (last : s.toList.getLast? ≠ some '\n') : ∀ w ∈ (Path.ofText s).segments, isWord w = true := by
  intro w member
  simp only [Path.segments, Path.ofText, ← List.map_cons] at member
  obtain ⟨part, inParts, rfl⟩ := List.mem_map.mp member
  simp only [isPlainName, Filter.dropFinalNewline, if_neg last, List.all_eq_true] at plain
  have good := plain part inParts
  cases part with
  | nil => cases good
  | cons c cs =>
    simp only [Bool.and_eq_true, Bool.or_eq_true, List.all_eq_true] at good
    simp only [isWord, String.toList_ofList, Bool.and_eq_true, bne_iff_ne, List.all_cons, List.all_eq_true,
      isWordChar, Char.isAlphanum, Bool.or_eq_true]
    refine ⟨by simp, ?_, ?_⟩
    · rcases good.1 with alpha | underscore
      · exact .inl (.inl alpha)
      · exact .inr underscore
    · intro d inside
      simpa [Char.isAlphanum] using good.2 d inside

/-- How a sort is read: as a key and a direction. -/
def SortRead (ctx : Context) (strict : Bool) (root : SortSite) (backslash : Bool) (sort : Sorting)
    (clause : List Lexeme) : Prop :=
  ∃ key, clause = key ++ [.word sort.direction.name] ∧
    KeyRead ctx strict root backslash sort.path.segments key

theorem KeyRead.whole {ctx : Context} {strict : Bool} {root : SortSite} {backslash : Bool}
    {segments : List String} {key : List Lexeme} (read : KeyRead ctx strict root backslash segments key) :
    Whole key := by
  cases read with
  | column => exact fun _ => rfl
  | translated => exact whole_languageRead _ _ _ _ _
  | language => exact whole_languageRead _ _ _ _ _
  | json => exact whole_jsonRead _ _ _ _ _
  | verbatim => exact whole_dottedRead _

theorem SortRead.whole {ctx : Context} {strict : Bool} {root : SortSite} {backslash : Bool}
    {sort : Sorting} {clause : List Lexeme} (read : SortRead ctx strict root backslash sort clause) :
    Whole clause := by
  obtain ⟨key, rfl, read⟩ := read
  exact read.whole.append fun _ => rfl

/-- The order term of a sort that was read from a text is read as a key and the sort's direction. -/
theorem sortRead_of_sortTerm {ctx : Context} {mode : SortMode} {schema : Schema} {table : String}
    {sort : Sorting} {x : OrderTerm × List JoinClause} (backslash : Bool)
    (last : sort.name.toList.getLast? ≠ some '\n')
    (ok : (sortTerm ctx mode schema table sort).result = .ok x) :
    SortRead ctx mode.strict { schema, table, walked := "", depth := 0 } backslash sort
      (lexemes backslash (x.1.tokens ctx.style)) := by
  have directed : ∀ key : OrderKey, lexemes backslash ((⟨key, sort.direction⟩ : OrderTerm).tokens ctx.style) =
      lexemes backslash (key.tokens ctx.style) ++ [.word sort.direction.name] := by
    intro key
    cases sort.direction <;> simp +decide [OrderTerm.tokens, Token.lexemes_word, Direction.name]
  rcases sortTerm_eq_ok ok with ⟨e, walk, key⟩ | ⟨lenient, plain, _, rfl⟩
  · rw [key, directed]
    exact ⟨_, rfl, keyRead_of_keyed mode.strict backslash walk⟩
  · have words := isWord_of_isPlainName plain last
    have read := lex_dotted false words
    rw [Path.dotted_segments] at read
    refine ⟨_, directed _, ?_⟩
    have name : lexemes backslash ((OrderKey.verbatim sort.name).tokens ctx.style) = lex false sort.name := by
      simp [OrderKey.tokens, Token.lexemes]
    rw [name, read]
    exact .verbatim lenient words

/-- However sorts are spelled, their order is read as one clause for each of them, in which what they name
    stands in one literal or is a name of word characters. -/
theorem clauses_of_compileSorts {ctx : Context} {mode : SortMode} {s : String} {sorts : List Sorting}
    {subject : Subject} {table : Option String} {part : SortPart} (backslash : Bool)
    (parsed : Sorting.parseAll s = .ok sorts)
    (ok : (compileSorts ctx mode sorts subject table).result = .ok part) :
    ∃ schema, ctx.schemaOf subject = .ok schema ∧
      List.Forall₂ (SortRead ctx mode.strict
          { schema, table := rootTable schema table, walked := "", depth := 0 } backslash)
        sorts (clauses (lex backslash (part.text ctx.style))) := by
  obtain ⟨schema, found, described, walks, same⟩ := compileSorts_eq_ok ok
  have plain : ∀ t ∈ part.terms, t.key.Plain := by
    intro t member
    rw [same] at member
    obtain ⟨x, inFound, rfl⟩ := List.mem_map.mp member
    obtain ⟨sort, _, walk⟩ := exists_left_of_forall₂ walks inFound
    exact (plain_sortTerm walk).1
  have lasts : ∀ sort ∈ sorts, sort.name.toList.getLast? ≠ some '\n' := by
    intro sort member
    obtain ⟨text, _, one⟩ := exists_left_of_forall₂ (mapM_eq_ok.mp parsed) member
    exact Sorting.getLast?_name one
  have reads : List.Forall₂ (SortRead ctx mode.strict
      { schema, table := rootTable schema table, walked := "", depth := 0 } backslash)
      sorts (part.terms.map fun t => lexemes backslash (t.tokens ctx.style)) := by
    rw [same, List.map_map, List.forall₂_map_right_iff, List.forall₂_iff_zip]
    refine ⟨walks.length_eq, ?_⟩
    intro sort x paired
    have walk := (List.forall₂_iff_zip.mp walks).2 paired
    exact sortRead_of_sortTerm backslash (lasts sort (List.of_mem_zip paired).1) walk
  refine ⟨schema, described, ?_⟩
  have text : lex backslash (part.text ctx.style) =
      [Lexeme.symbol ','].intercalate (part.terms.map fun t => lexemes backslash (t.tokens ctx.style)) := by
    rw [SortPart.text, lex_print (marked_order ctx.style plain).legible, orderTokens, lexemes_intercalate,
      List.map_map]
    rfl
  rw [text, clauses_intercalate]
  · exact reads
  · intro clause member
    obtain ⟨sort, _, read⟩ := exists_left_of_forall₂ reads member
    exact read.whole
  · intro clause member
    obtain ⟨sort, _, key, rfl, _⟩ := exists_left_of_forall₂ reads member
    simp

namespace Books

def pamphlet : Schema :=
  { entity := "Pamphlet", table := "pamphlet"
    fields := [{ name := "Meta", column := "meta", kind := some .json },
      { name := "Headline", column := "headline", translated := true },
      { name := "Author", column := "Author", relation := .direct, target := some "Author"
        targetTable := some "author" }] }

/-- Pamphlets, whose schema has a JSON column, a translated one and a relation. -/
def printing : Context :=
  { context with
    schemaOf := fun
      | .entity "Pamphlet" => .ok pamphlet
      | subject => schemaOf subject }

/-- Sorts that try to end the literal, the call and the clause that they stand in. -/
def hostileSorts : String := "-Meta.a'b\\'.c) --, Headline.it' OR 1=1,Author.Name ,Shelf.row_2"

end Books

theorem clauses_of_compileSorts_pamphlets :
    ∃ sorts part, Sorting.parseAll Books.hostileSorts = .ok sorts ∧ sorts.length = 4 ∧
      (compileSorts Books.printing { strict := false } sorts (.entity "Pamphlet") none).result = .ok part ∧
      ∀ backslash, ∃ schema, Books.printing.schemaOf (.entity "Pamphlet") = .ok schema ∧
        List.Forall₂ (SortRead Books.printing false
            { schema, table := rootTable schema none, walked := "", depth := 0 } backslash)
          sorts (clauses (lex backslash (part.text Books.printing.style))) := by
  obtain ⟨sorts, parsed, ⟨part, ok⟩, four⟩ : ∃ sorts, Sorting.parseAll Books.hostileSorts = .ok sorts ∧
      (∃ part, (compileSorts Books.printing { strict := false } sorts (.entity "Pamphlet") none).result =
        .ok part) ∧ sorts.length = 4 := ⟨_, rfl, ⟨_, rfl⟩, rfl⟩
  exact ⟨sorts, part, parsed, four, ok, fun backslash => clauses_of_compileSorts backslash parsed ok⟩

end RowQuery.Compile
