import RowQuery.Proofs.Lexing
import RowQuery.Sql.Expr

/-!
# Quoted tokens before any text

`takeLexeme` takes the first lexeme from a text and gives back the text behind it; taken again and again, it
gives the lexemes that a reader sees. It takes a quoted name or literal as it was written, exactly if the text
behind it does not start with one more of the same quotes. So a quoted name determines the name, and a qualified
column its table and its name.
-/

namespace RowQuery.Sql

namespace LexState

variable {backslash : Bool}

/-- The first lexeme that a reader completes, and the text behind it. -/
def next? (backslash : Bool) : LexState → List Char → Option (Lexeme × List Char)
  | state, [] => state.finish.head?.map (·, [])
  | state, c :: cs =>
    match state.step backslash c with
    | ([], after) => next? backslash after cs
    -- The character stands behind the lexeme that it completes, unless the reader was at the beginning.
    | (lexeme :: _, _) => some (lexeme, if state = .plain [] then cs else c :: cs)

theorem next?_cons_silent {state : LexState} {c : Char} (silent : (state.step backslash c).1 = [])
    (cs : List Char) :
    state.next? backslash (c :: cs) = (state.step backslash c).2.next? backslash cs := by
  have step : state.step backslash c = ([], (state.step backslash c).2) := by rw [← silent]
  rw [next?, step]

theorem next?_cons_complete {state : LexState} {c : Char} {lexeme : Lexeme} {more : List Lexeme}
    (complete : (state.step backslash c).1 = lexeme :: more) (cs : List Char) :
    state.next? backslash (c :: cs) = some (lexeme, if state = .plain [] then cs else c :: cs) := by
  have step : state.step backslash c = (lexeme :: more, (state.step backslash c).2) := by rw [← complete]
  rw [next?, step]

/-- What is behind a lexeme is an end of the text. -/
theorem next?_suffix {state : LexState} {cs rest : List Char} {lexeme : Lexeme}
    (taken : state.next? backslash cs = some (lexeme, rest)) : rest <:+ cs := by
  induction cs generalizing state with
  | nil =>
    simp only [next?, Option.map_eq_some_iff, Prod.mk.injEq] at taken
    obtain ⟨_, _, _, rfl⟩ := taken
    exact List.suffix_rfl
  | cons c cs ih =>
    cases emitted : (state.step backslash c).1 with
    | nil =>
      rw [next?_cons_silent emitted] at taken
      exact (ih taken).trans (List.suffix_cons c cs)
    | cons l ls =>
      rw [next?_cons_complete emitted, Option.some.injEq, Prod.mk.injEq] at taken
      rw [← taken.2]
      split
      · exact List.suffix_cons c cs
      · exact List.suffix_rfl

/-- At the beginning, a character that completes a lexeme is this lexeme. -/
theorem step_beginning {c : Char} {lexeme : Lexeme} {more : List Lexeme}
    (complete : (step backslash (.plain []) c).1 = lexeme :: more) :
    step backslash (.plain []) c = ([lexeme], .plain []) := by
  simp only [step, stepPlain, endWord] at complete ⊢
  split at complete
  · cases complete
  split at complete
  · cases complete
  split at complete
  · cases complete
  · next word quote blank =>
    cases complete
    simp [word, quote, blank]

/-- A character that is not part of a word ends it, and is read as it would be at the beginning. -/
theorem stepPlain_of_not_word {c : Char} (other : isWordChar c = false) (word : List Char) :
    stepPlain word c = (endWord word ++ (stepPlain [] c).1, (stepPlain [] c).2) := by
  by_cases quote : isQuote c = true
  · simp [stepPlain, other, quote, endWord]
  · by_cases blank : c.isWhitespace = true <;> simp [stepPlain, other, quote, blank, endWord]

/-- Elsewhere, a character that completes a lexeme is read as it would be at the beginning. -/
theorem step_behind {state : LexState} {c : Char} {lexeme : Lexeme} {more : List Lexeme}
    (behind : state ≠ .plain []) (complete : (state.step backslash c).1 = lexeme :: more) :
    state.step backslash c =
      (lexeme :: (step backslash (.plain []) c).1, (step backslash (.plain []) c).2) := by
  cases state with
  | plain word =>
    cases word with
    | nil => exact absurd rfl behind
    | cons first chars =>
      simp only [step] at complete ⊢
      cases inWord : isWordChar c with
      | true => simp [stepPlain, inWord] at complete
      | false =>
        rw [stepPlain_of_not_word inWord, endWord] at complete ⊢
        cases complete
        rfl
  | closing q body =>
    simp only [step] at complete ⊢
    split at complete
    · cases complete
    · next other =>
      rw [if_neg other]
      cases complete
      rfl
  | inside q body =>
    simp only [step] at complete
    split at complete
    · cases complete
    split at complete <;> cases complete
  | escaped q body => cases complete

/-- The lexemes of a text are the first one and those of the text behind it. -/
theorem lexFrom_eq_next? (state : LexState) (cs : List Char) :
    state.lexFrom backslash cs =
      (state.next? backslash cs).elim [] fun taken => taken.1 :: lexFrom backslash (.plain []) taken.2 := by
  induction cs generalizing state with
  | nil =>
    cases state with
    | plain word => by_cases none : word = [] <;> simp [lexFrom, run, next?, finish, endWord, none]
    | inside q body | closing q body | escaped q body => simp [lexFrom, run, next?, finish, endWord]
  | cons c cs ih =>
    have split : state.lexFrom backslash (c :: cs) =
        (state.step backslash c).1 ++ (state.step backslash c).2.lexFrom backslash cs := by
      simp only [lexFrom, run_cons, List.append_assoc]
    cases emitted : (state.step backslash c).1 with
    | nil => rw [split, next?_cons_silent emitted, emitted, ih, List.nil_append]
    | cons lexeme more =>
      rw [next?_cons_complete emitted, split]
      by_cases beginning : state = .plain []
      · subst beginning
        rw [step_beginning emitted]
        simp
      · rw [step_behind beginning emitted]
        simp [beginning, lexFrom, run_cons]

/-- A reader that has completed nothing is on the way to the same lexeme. -/
theorem next?_append {state : LexState} {cs : List Char} (silent : (state.run backslash cs).1 = [])
    (ds : List Char) :
    state.next? backslash (cs ++ ds) = (state.run backslash cs).2.next? backslash ds := by
  induction cs generalizing state with
  | nil => rfl
  | cons c cs ih =>
    rw [run_cons, List.append_eq_nil_iff] at silent
    rw [List.cons_append, next?_cons_silent silent.1, ih silent.2, run_cons]

/-- Behind the last quote a token is complete, exactly if it was not the first of two. -/
theorem next?_closing (backslash : Bool) (q : Char) (body cs : List Char) :
    (closing q body).next? backslash cs = some (.quoted q (String.ofList body), cs) ↔ cs.head? ≠ some q := by
  cases cs with
  | nil => simp [next?, finish]
  | cons c cs =>
    by_cases doubled : c = q
    · subst doubled
      have silent : ((closing c body).step backslash c).1 = [] := by simp [step]
      rw [next?_cons_silent silent]
      simp only [List.head?_cons, ne_eq, not_true_eq_false, iff_false]
      intro taken
      exact absurd (next?_suffix taken).length_le (by simp)
    · have complete : ((closing q body).step backslash c).1 =
          .quoted q (String.ofList body) :: (stepPlain [] c).1 := by simp [step, doubled]
      rw [next?_cons_complete complete]
      simp [doubled]

end LexState

/-- The first lexeme of a text, and the text behind it. -/
def takeLexeme (backslash : Bool) (s : String) : Option (Lexeme × String) :=
  ((LexState.plain []).next? backslash s.toList).map (Prod.map id String.ofList)

/-- The lexemes of a text are taken from it one after the other. -/
theorem lex_eq_takeLexeme (backslash : Bool) (s : String) :
    lex backslash s =
      (takeLexeme backslash s).elim [] fun taken => taken.1 :: lex backslash taken.2 := by
  rw [lex, LexState.lexFrom_eq_next?, takeLexeme]
  cases (LexState.plain []).next? backslash s.toList with
  | none => rfl
  | some found => simp [lex]

/-- A quoted token is taken from a text as it was written, exactly if the quote behind it is its end. -/
theorem takeLexeme_append {backslash : Bool} {s : String} {q : Char} {body : List Char}
    (read : (LexState.plain []).run backslash s.toList = ([], .closing q body)) (rest : String) :
    takeLexeme backslash (s ++ rest) = some (.quoted q (String.ofList body), rest) ↔
      rest.toList.head? ≠ some q := by
  have silent : ((LexState.plain []).run backslash s.toList).1 = [] := by rw [read]
  rw [← LexState.next?_closing backslash q body, takeLexeme, String.toList_append,
    LexState.next?_append silent, read, Option.map_eq_some_iff]
  constructor
  · rintro ⟨⟨lexeme, behind⟩, taken, same⟩
    rw [Prod.map_apply, id_eq, Prod.mk.injEq] at same
    rw [taken, same.1, ← same.2, String.toList_ofList]
  · intro taken
    exact ⟨_, taken, by rw [Prod.map_apply, id_eq, String.ofList_toList]⟩

theorem takeLexeme_quoteName (backslash : Bool) (d : Dialect) (name rest : String) :
    takeLexeme backslash (d.quoteName name ++ rest) = some (.quoted d.quote name, rest) ↔
      rest.toList.head? ≠ some d.quote := by
  rw [← takeLexeme_append (Token.run_name d name), String.ofList_toList]

theorem takeLexeme_quoteLiteral (backslash : Bool) (value rest : String) :
    takeLexeme backslash (quoteLiteral value ++ rest) =
        some (.quoted '\'' (String.ofList (LexState.literalBody backslash value.toList)), rest) ↔
      rest.toList.head? ≠ some '\'' :=
  takeLexeme_append (Token.run_quoteLiteral value) rest

/-- The text of a qualified column: the two quoted names with a dot between them. -/
theorem text_column (d : Dialect) (table name : String) :
    (Column.of table name).text d = d.quoteName table ++ ("." ++ d.quoteName name) := by
  simp [Column.text, Column.of, Column.tokens, Token.print, Token.text, String.join_cons]

/-- Two texts that start with quoted names, and go on with something else, have the same name and go on alike. -/
theorem quoteName_append_inj (d : Dialect) {name₁ name₂ rest₁ rest₂ : String}
    (apart₁ : rest₁.toList.head? ≠ some d.quote) (apart₂ : rest₂.toList.head? ≠ some d.quote)
    (same : d.quoteName name₁ ++ rest₁ = d.quoteName name₂ ++ rest₂) : name₁ = name₂ ∧ rest₁ = rest₂ := by
  have first := (takeLexeme_quoteName false d name₁ rest₁).mpr apart₁
  have second := (takeLexeme_quoteName false d name₂ rest₂).mpr apart₂
  rw [same, second] at first
  simpa [eq_comm] using first

theorem quoteName_injective (d : Dialect) : Function.Injective d.quoteName := by
  intro name₁ name₂ same
  have behind : "".toList.head? ≠ some d.quote := by simp
  exact (quoteName_append_inj d behind behind (congrArg (· ++ "") same)).1

theorem text_column_inj (d : Dialect) {table₁ name₁ table₂ name₂ : String} :
    (Column.of table₁ name₁).text d = (Column.of table₂ name₂).text d ↔ table₁ = table₂ ∧ name₁ = name₂ := by
  constructor
  · intro same
    have dot (name : String) : ("." ++ d.quoteName name).toList.head? ≠ some d.quote := by
      rw [String.toList_append]
      cases d <;> simp [Dialect.quote]
    rw [text_column, text_column] at same
    obtain ⟨tables, rest⟩ := quoteName_append_inj d (dot name₁) (dot name₂) same
    exact ⟨tables, quoteName_injective d (String.append_right_inj "." |>.mp rest)⟩
  · rintro ⟨rfl, rfl⟩
    rfl

/-- Quoting is unambiguous. A reader takes a quoted name from the start of a text, and leaves the text behind it,
    exactly if this does not start with one more quote; so names and qualified columns that are written alike are
    the same. It takes a literal in the same way: as it was if a backslash escapes, and with every backslash twice
    if not, but as one literal that ends at the same place. -/
theorem takeLexeme_quoted (backslash : Bool) (d : Dialect) :
    (∀ name rest : String,
      takeLexeme backslash (d.quoteName name ++ rest) = some (.quoted d.quote name, rest) ↔
        rest.toList.head? ≠ some d.quote) ∧
    Function.Injective d.quoteName ∧
    (∀ table₁ name₁ table₂ name₂ : String,
      (Column.of table₁ name₁).text d = (Column.of table₂ name₂).text d ↔ table₁ = table₂ ∧ name₁ = name₂) ∧
    (∀ value rest : String,
      takeLexeme true (quoteLiteral value ++ rest) = some (.quoted '\'' value, rest) ↔
        rest.toList.head? ≠ some '\'') ∧
    ∀ value rest : String,
      takeLexeme false (quoteLiteral value ++ rest) =
          some (.quoted '\'' (String.ofList (double '\\' value.toList)), rest) ↔
        rest.toList.head? ≠ some '\'' := by
  refine ⟨takeLexeme_quoteName backslash d, quoteName_injective d, fun _ _ _ _ => text_column_inj d, ?_, ?_⟩
  · intro value rest
    have asWritten := takeLexeme_quoteLiteral true value rest
    rwa [LexState.literalBody, if_pos rfl, String.ofList_toList] at asWritten
  · exact takeLexeme_quoteLiteral false

/-- A quote behind a quoted name runs into it. -/
example : takeLexeme false (Dialect.mysql.quoteName "a" ++ "\x60b\x60.c") = some (.quoted '\x60' "a\x60b", ".c") := by
  decide

end RowQuery.Sql
