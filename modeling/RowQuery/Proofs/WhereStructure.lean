import RowQuery.Proofs.Outline
import RowQuery.Proofs.Placeholders
import RowQuery.Proofs.StandardForm

/-!
# The structure of the whole condition

The condition of a compiled query is a conjunction: the filters in brackets, the search, and the
discriminators of its joins. Its text is divided into exactly these by the connectives outside of
brackets, and it is read as this conjunction.
-/

namespace RowQuery.Sql

namespace Predicate

/-- The conjunction of some conditions, of which there is at least one. -/
def allOf (p : Predicate) (ps : List Predicate) : Predicate := ps.foldl .and p

theorem allOf_cons (p q : Predicate) (qs : List Predicate) : allOf p (q :: qs) = allOf (.and p q) qs := rfl

theorem tokens_allOf (d : Dialect) (p : Predicate) (ps : List Predicate) :
    (allOf p ps).tokens d = connectedTokens d "AND" (p :: ps) := by
  induction ps generalizing p with
  | nil => simp [allOf, connectedTokens, Token.joined]
  | cons q qs ih =>
    rw [allOf_cons, ih]
    cases qs <;> simp [connectedTokens, tokens, connectTokens, Token.joined]

theorem args_allOf (p : Predicate) (ps : List Predicate) : (allOf p ps).args = argsOf (p :: ps) := by
  induction ps generalizing p with
  | nil => simp [allOf, argsOf]
  | cons q qs ih =>
    rw [allOf_cons, ih]
    simp [argsOf, args]

theorem plain_allOf {p : Predicate} {ps : List Predicate} (plain : ∀ q ∈ p :: ps, q.Plain) :
    (allOf p ps).Plain := by
  induction ps generalizing p with
  | nil => exact plain p (by simp)
  | cons q qs ih =>
    apply ih
    intro r member
    rcases List.mem_cons.mp member with rfl | member
    · intro c inside
      rcases List.mem_append.mp inside with left | right
      · exact plain p (by simp) c left
      · exact plain q (by simp) c right
    · exact plain r (by simp [member])

theorem standard_allOf {p : Predicate} {ps : List Predicate} (first : p.isOr = false)
    (standard : p.Standard) (regular : ∀ q ∈ ps, q.Regular) : (allOf p ps).Standard := by
  induction ps generalizing p with
  | nil => exact standard
  | cons q qs ih =>
    have second := regular q (by simp)
    exact ih rfl ⟨first, second.atomic, standard, second.standard⟩
      fun r member => regular r (by simp [member])

theorem plain_enclose {p : Predicate} {ps : List Predicate} (plain : ∀ q ∈ p :: ps, q.Plain) :
    (enclose p ps).Plain := by
  have all : (anyOf p ps).Plain := by
    intro c member
    rw [columns_anyOf] at member
    obtain ⟨q, inside, member⟩ := List.mem_flatMap.mp member
    exact plain q inside c member
  cases ps with
  | nil => exact all
  | cons q qs => exact all

theorem args_enclose (p : Predicate) (ps : List Predicate) : (enclose p ps).args = argsOf (p :: ps) := by
  cases ps with
  | nil => simp [enclose, argsOf]
  | cons q qs => rw [enclose, args, args_anyOf]

@[simp] theorem holds_allOf {δ : Type} {E : Engine δ} {db : Database δ} {scopes : Scopes δ}
    {p : Predicate} {ps : List Predicate} :
    (allOf p ps).Holds E db scopes ↔ ∀ q ∈ p :: ps, q.Holds E db scopes := by
  induction ps generalizing p with
  | nil => simp [allOf]
  | cons q qs ih => simp only [allOf_cons, ih, List.forall_mem_cons, holds_and, and_assoc]

/-- The conjunction of some conditions, if there are any. -/
def allOf? : List Predicate → Option Predicate
  | [] => none
  | p :: ps => some (allOf p ps)

theorem holds_allOf? {δ : Type} {E : Engine δ} {db : Database δ} {scopes : Scopes δ}
    {ps : List Predicate} :
    (∀ p ∈ allOf? ps, p.Holds E db scopes) ↔ ∀ p ∈ ps, p.Holds E db scopes := by
  cases ps with
  | nil => simp [allOf?]
  | cons p ps => simp only [allOf?, Option.mem_some_iff, forall_eq', holds_allOf]

end Predicate

/-- Reading goes on over conditions without connectives that are joined by `AND`. -/
theorem ChainReads.allOf {ls : List Lexeme} {vs : List Value} {p : Predicate}
    {xs : List (List Lexeme × List Value)} {ps : List Predicate} (first : ChainReads ls vs p)
    (short : p.size ≤ ls.length)
    (each : List.Forall₂ (fun x q => AtomReads x.1 x.2 q ∧ q.size ≤ x.1.length) xs ps) :
    ChainReads (ls ++ xs.flatMap fun x => .word "AND" :: x.1) (vs ++ xs.flatMap (·.2)) (.allOf p ps) ∧
      (Predicate.allOf p ps).size ≤ (ls ++ xs.flatMap fun x => .word "AND" :: x.1).length := by
  induction each generalizing ls vs p with
  | nil => simpa [Predicate.allOf] using ⟨first, short⟩
  | @cons x q xs qs second _ ih =>
    have size : (Predicate.and p q).size ≤ (ls ++ .word "AND" :: x.1).length := by
      have bound := second.2
      simp only [Predicate.size, List.length_append, List.length_cons]
      omega
    have both := ih (first.and second.1) size
    simpa [Predicate.allOf_cons] using both

theorem intercalate_cons_eq (w : Lexeme) (ls : List Lexeme) (lss : List (List Lexeme)) :
    [w].intercalate (ls :: lss) = ls ++ lss.flatMap (w :: ·) := by
  induction lss generalizing ls with
  | nil => simp
  | cons ms lss ih =>
    rw [List.intercalate_cons_cons, ih]
    simp

end RowQuery.Sql

namespace RowQuery.Compile

open RowQuery.Schema RowQuery.Sql RowQuery.Join

namespace Compiled

/-- The conditions that all have to hold. -/
def conditions (c : Compiled) : List Predicate :=
  (match c.filters with
    | [] => []
    | p :: ps => [.group (.allOf p ps)]) ++
  (match c.search with
    | [] => []
    | p :: ps => [.enclose p ps]) ++
  c.discriminators.map (·.predicate)

/-- The condition as a whole, if there is one. -/
def condition? (c : Compiled) : Option Predicate := Predicate.allOf? c.conditions

/-- The whole condition asks for all filters, for some alternative of the search if there is one, and
    for all discriminators. -/
theorem holds_condition {δ : Type} (c : Compiled) (E : Engine δ) (db : Database δ) (scopes : Scopes δ) :
    (∀ p ∈ c.condition?, p.Holds E db scopes) ↔
      (∀ p ∈ c.filters, p.Holds E db scopes) ∧
      (c.search = [] ∨ ∃ p ∈ c.search, p.Holds E db scopes) ∧
      ∀ x ∈ c.discriminators, x.predicate.Holds E db scopes := by
  rw [condition?, Predicate.holds_allOf?, conditions]
  simp only [List.forall_mem_append, List.forall_mem_map, and_assoc]
  refine and_congr ?_ (and_congr ?_ Iff.rfl)
  · cases c.filters with
    | nil => simp
    | cons p ps => simp only [List.forall_mem_singleton, holds_group, Predicate.holds_allOf]
  · cases c.search with
    | nil => simp
    | cons p ps =>
      simp only [List.forall_mem_singleton, Predicate.holds_enclose, reduceCtorEq, false_or]

end Compiled

/-- Tokens and values that a condition without connectives is written with. -/
structure Written (backslash : Bool) (x : List Token × List Value) (p : Predicate) : Prop where
  tokens : ∃ d, lexemes backslash x.1 = lexemes backslash (p.tokens d)
  args : x.2 = p.args
  regular : p.Regular
  plain : p.Plain

namespace Written

variable {backslash : Bool} {x : List Token × List Value} {p : Predicate}

theorem closed (written : Written backslash x p) : Closed (lexemes backslash x.1) := by
  obtain ⟨d, same⟩ := written.tokens
  rw [same]
  exact (Predicate.outlined d written.plain).2 written.regular.atomic

theorem short (written : Written backslash x p) : p.size ≤ (lexemes backslash x.1).length := by
  obtain ⟨d, same⟩ := written.tokens
  rw [same]
  exact p.size_le_length d backslash

theorem ne_nil (written : Written backslash x p) : lexemes backslash x.1 ≠ [] := by
  intro empty
  have short := written.short
  have some := p.links_lt_size
  rw [empty, List.length_nil] at short
  omega

theorem reads (written : Written true x p) : AtomReads (lexemes true x.1) x.2 p := by
  obtain ⟨d, same⟩ := written.tokens
  rw [same, written.args]
  exact (Predicate.reads d written.plain written.regular.standard).2.2 written.regular.atomic

end Written

/-- Conditions that are joined by `AND` are read as their conjunction. -/
theorem read_written {text : String} {xs : List (List Token × List Value)} {ps : List Predicate}
    (written : List.Forall₂ (Written true) xs ps)
    (lexed : lex true text = [Lexeme.word "AND"].intercalate (xs.map fun x => lexemes true x.1)) :
    read text (xs.flatMap (·.2)) = Predicate.allOf? ps := by
  cases written with
  | nil =>
    have empty : lex true text = [] := lexed
    simp [Sql.read, empty, readCondition, Predicate.allOf?]
  | @cons x p xs ps first rest =>
    have chain := first.reads.chain first.regular.atomic
    have each : List.Forall₂ (fun x q => AtomReads x.1 x.2 q ∧ q.size ≤ x.1.length)
        (xs.map fun x => (lexemes true x.1, x.2)) ps :=
      List.forall₂_map_left_iff.mpr (rest.imp fun _ _ written => ⟨written.reads, written.short⟩)
    obtain ⟨reads, short⟩ := chain.allOf first.short each
    rw [List.map_cons, intercalate_cons_eq, List.flatMap_map] at lexed
    rw [List.flatMap_map, List.flatMap_map] at reads
    rw [List.flatMap_map] at short
    rw [List.flatMap_cons, Predicate.allOf?]
    apply read_of_reads
    · rw [lexed]
      exact reads.whole
    · rw [lexed]
      exact short

/-- Brackets around several alternatives are read alike with and without spaces. -/
theorem lexemes_search (backslash : Bool) (d : Dialect) (p : Predicate) (ps : List Predicate) :
    lexemes backslash (SearchPart.tokens d ⟨p :: ps, []⟩) =
      lexemes backslash ((Predicate.enclose p ps).tokens d) := by
  cases ps with
  | nil => simp [SearchPart.tokens, Predicate.enclose, connectedTokens, Token.joined]
  | cons q qs =>
    simp only [SearchPart.tokens, Predicate.enclose, Predicate.tokens, List.length_cons,
      lexemes_bracketedSpaced, tokens_anyOf]
    rw [if_pos (by omega), lexemes_bracketed]

namespace Compiled

variable {c : Compiled}

/-- The conditions of a compiled query are those that its tokens and values are put together from. -/
theorem written_conditions (plain : c.Plain) (filters : ∀ p ∈ c.filters, p.Regular)
    (search : ∀ p ∈ c.search, p.Regular) (backslash : Bool) :
    List.Forall₂ (Written backslash) c.boundConditions c.conditions := by
  have plainFilters := plain.filters
  have plainSearch := plain.search
  -- Brackets without spaces around them are no condition's own, but they are read like its own.
  unfold boundConditions conditions
  refine List.rel_append (List.rel_append ?_ ?_) ?_
  · cases same : c.filters with
    | nil => exact .nil
    | cons p ps =>
      rw [same] at plainFilters filters
      have first := filters p (by simp)
      refine .cons ⟨⟨c.style, ?_⟩, (Predicate.args_allOf p ps).symm, ⟨rfl, ?_⟩, ?_⟩ .nil
      · rw [lexemes_bracketed, Predicate.tokens, lexemes_bracketedSpaced, Predicate.tokens_allOf]
      · exact Predicate.standard_allOf (Predicate.isOr_of_isAtomic first.atomic) first.standard
          fun q member => filters q (by simp [member])
      · exact Predicate.plain_allOf plainFilters
  · cases same : c.search with
    | nil => exact .nil
    | cons p ps =>
      rw [same] at plainSearch search
      exact .cons ⟨⟨c.style, lexemes_search backslash c.style p ps⟩, (Predicate.args_enclose p ps).symm,
        Predicate.regular_enclose search, Predicate.plain_enclose plainSearch⟩ .nil
  · rw [List.forall₂_map_left_iff, List.forall₂_map_right_iff, List.forall₂_same]
    intro x member
    exact ⟨⟨c.joinStyle, rfl⟩, rfl, ⟨rfl, trivial⟩, plain.discriminators x member⟩

/-- The condition of a compiled query is read as what it is. -/
theorem read_where (plain : c.Plain) (filters : ∀ p ∈ c.filters, p.Regular)
    (search : ∀ p ∈ c.search, p.Regular) : read c.whereText c.args = c.condition? := by
  have lexed := lex_where plain true
  rw [← map_boundConditions, List.map_map] at lexed
  rw [← flatMap_boundConditions]
  exact read_written (written_conditions plain filters search true) lexed

end Compiled

/-- How brackets and connectives divide the condition of a compiled query. Outside of brackets stand
    the filters, with `inside` between their brackets, the search, and the discriminators; between the
    brackets of the filters stands what each of them is compiled to by itself. -/
structure ConditionOutlined (ctx : Context) (q : Query) (subject : Subject) (backslash : Bool)
    (c : Compiled) (search : SearchPart) (inside : List Lexeme) : Prop where
  balanced : Balanced (lex backslash c.whereText)
  connectives : ∀ w ∈ connectives (lex backslash c.whereText), w = .and
  operands : operands (lex backslash c.whereText) =
    (if q.filters.isEmpty then [] else [.symbol '(' :: inside ++ [.symbol ')']]) ++
    (if search.alternatives.isEmpty then [] else [lex backslash (search.text c.style)]) ++
    c.discriminators.map fun x => lex backslash (x.predicate.text c.joinStyle)
  searched : (compileSearch ctx q.term subject (some c.table)).result = .ok search
  balancedInside : Balanced inside
  connectivesInside : ∀ w ∈ Sql.connectives inside, w = .and
  conjuncts : List.Forall₂ (fun flt ls => ∃ part,
    (compileFilters ctx [flt] subject (some c.table)).result = .ok part ∧
      ls = lex backslash (part.text c.style)) q.filters (Sql.operands inside)

/-- The condition of a compiled query is divided into its parts. -/
theorem conditionOutlined_of_yield {ctx : Context} {strict : Bool} {q : Query} {subject : Subject}
    {table : Option String} {c : Compiled} {s : Stages} (key : PlainKey ctx.settings) (plain : c.Plain)
    (filters : ∀ p ∈ c.filters, p.Regular) (search : ∀ p ∈ c.search, p.Regular)
    (yields : s.Yield ctx strict q subject table c) (backslash : Bool) :
    ConditionOutlined ctx q subject backslash c s.search
      (lexemes backslash (connectedTokens c.style "AND" c.filters)) := by
  have written := Compiled.written_conditions plain filters search backslash
  have whole : ∀ ls ∈ c.conditionTokens.map (lexemes backslash), Closed ls ∧ ls ≠ [] := by
    intro ls member
    rw [← Compiled.map_boundConditions, List.map_map] at member
    obtain ⟨x, inside, rfl⟩ := List.mem_map.mp member
    obtain ⟨p, _, written⟩ := exists_left_of_forall₂ written.flip inside
    exact ⟨written.closed, written.ne_nil⟩
  -- A filter by itself is a piece just as well, which divides the inside of the brackets.
  have each : ∀ ls ∈ c.filters.map fun p => lexemes backslash (p.tokens c.style), Closed ls ∧ ls ≠ [] := by
    intro ls member
    obtain ⟨p, inside, rfl⟩ := List.mem_map.mp member
    have piece : Written backslash (p.tokens c.style, p.args) p :=
      ⟨⟨c.style, rfl⟩, rfl, filters p inside, plain.filters p inside⟩
    exact ⟨piece.closed, piece.ne_nil⟩
  have group : lexemes backslash (connectedTokens c.style "AND" c.filters) =
      [Lexeme.word "AND"].intercalate (c.filters.map fun p => lexemes backslash (p.tokens c.style)) := by
    rw [connectedTokens, lexemes_joined (by decide), List.map_map]
    rfl
  have isAnd : (Lexeme.word "AND").connective? = some .and := by decide
  obtain ⟨parts, connectives⟩ := operands_intercalate isAnd
    (fun ls member => (whole ls member).1) fun ls member => (whole ls member).2
  obtain ⟨conjuncts, inner⟩ := operands_intercalate isAnd
    (fun ls member => (each ls member).1) fun ls member => (each ls member).2
  obtain ⟨found, same, walks⟩ := yields.walks
  obtain ⟨alternatives, _⟩ := yields.searched
  constructor
  case balanced =>
    rw [Compiled.lex_where plain]
    exact balanced_intercalate "AND" fun ls member => (whole ls member).1.balanced
  case connectives =>
    rw [Compiled.lex_where plain]
    exact connectives
  case operands =>
    have none : q.filters.isEmpty = c.filters.isEmpty := by
      rw [same, List.isEmpty_map, isEmpty_of_forall₂ walks]
    have text : lex backslash (s.search.text c.style) =
        lexemes backslash (SearchPart.tokens c.style ⟨c.search, []⟩) := by
      rw [alternatives, ← lex_print (alternatives ▸ Compiled.marked_search plain).legible]
      rfl
    rw [Compiled.lex_where plain, parts, Compiled.lex_discriminators plain, none, text, ← alternatives,
      ← lexemes_bracketed, Compiled.conditionTokens, List.map_append, List.map_append]
    congr 2
    · split <;> rfl
    · split <;> rfl
  case searched =>
    have table : c.table = rootTable s.schema table := by rw [yields.compiled]
    rw [table]
    exact yields.search
  case balancedInside =>
    rw [group]
    exact balanced_intercalate "AND" fun ls member => (each ls member).1.balanced
  case connectivesInside =>
    rw [group]
    exact inner
  case conjuncts =>
    rw [group, conjuncts, same, List.map_map, List.forall₂_map_right_iff]
    rw [← yields.root] at walks
    refine walks.imp fun flt n walk => ?_
    have narrowed := plain_narrowed key (narrowed_of_narrow walk)
    exact ⟨n.part, (segment_of_narrow key yields.schema walk backslash c.style).1,
      (lex_part narrowed backslash c.style).symm⟩

/-- The condition of a compiled query is a conjunction of its filters, of its search and of its
    discriminators. Its brackets are balanced; the connectives outside of them are all `AND`, and so are
    those directly between the brackets of the filters, which divide these into one part each. Every
    filter and every alternative is formed as the schemas have it, so in the subselect of a polymorphic
    relation both equalities restrict all alternatives. Read with `AND` binding tighter than `OR`, the
    text says that all filters hold, some alternative if there is one, and all discriminators. -/
theorem compileQuery_outlined {ctx : Context} {strict : Bool} {q : Query} {subject : Subject}
    {table : Option String} {c : Compiled} (key : PlainKey ctx.settings)
    (ok : (compileQuery ctx strict q subject table).result = .ok c) :
    (∀ backslash, ∃ search inside, ConditionOutlined ctx q subject backslash c search inside) ∧
    (∃ schema, ctx.schemaOf subject = .ok schema ∧
      ∀ p ∈ c.filters ++ c.search, Formed ctx schema c.table p) ∧
    read c.whereText c.args = c.condition? ∧
    ∀ {δ : Type} (E : Engine δ) (db : Database δ) (scopes : Scopes δ),
      (∀ p ∈ c.condition?, p.Holds E db scopes) ↔
        (∀ p ∈ c.filters, p.Holds E db scopes) ∧
        (c.search = [] ∨ ∃ p ∈ c.search, p.Holds E db scopes) ∧
        ∀ x ∈ c.discriminators, x.predicate.Holds E db scopes := by
  obtain ⟨s, yields⟩ := compileQuery_eq_ok ok
  have plain := plain_compileQuery key ok
  have filters := yields.forall_filters (P := Formed ctx s.schema c.table) formed_narrowed
  have search := yields.forall_search (P := Formed ctx s.schema c.table) fun searched =>
    formed_searched searched (fun f => List.mem_of_mem_filter) (by simp)
  have regularFilters := fun p member => (filters p member).regular
  have regularSearch := fun p member => (search p member).regular
  refine ⟨?_, ⟨s.schema, yields.schema, ?_⟩, ?_, ?_⟩
  · intro backslash
    exact ⟨_, _, conditionOutlined_of_yield key plain regularFilters regularSearch yields backslash⟩
  · exact List.forall_mem_append.mpr ⟨filters, search⟩
  · exact Compiled.read_where plain regularFilters regularSearch
  · exact c.holds_condition

namespace Books

/-- A loan of a book, with remarks that are notes too. -/
def loan : Schema :=
  { entity := "Loan", table := "loan"
    fields := [{ name := "Book", column := "Book", relation := .direct, target := some "Book"
                 targetTable := some "book", search := some "*" },
      { notes with name := "Remarks", column := "Remarks" }] }

/-- The remarks are joined; the notes of a book, behind a subselect, are not. -/
def lending : Context :=
  { context with
    schemaOf := fun
      | .entity "Loan" => .ok loan
      | subject => schemaOf subject
    registry := some { entries := [("Remarks",
      { type := .polymorphic, table := "note", joinType := .left
        keys := { polymorphicId := some "OwnerID", polymorphicType := some "OwnerType"
                  polymorphicValue := some "loan" } })] } }

def lent : Query :=
  { term := "x", filters := [⟨"Remarks.Stars", .greater, "3"⟩, ⟨"Book.Notes.Body", .like, "%) OR (%"⟩] }

end Books

theorem compileQuery_outlined_loans :
    ∃ c, (compileQuery Books.lending true Books.lent (.entity "Loan") none).result = .ok c ∧
      (∃ search inside, ConditionOutlined Books.lending Books.lent (.entity "Loan") true c search inside ∧
        search.alternatives.length = 3 ∧ (operands inside).length = 2) ∧
      (operands (lex true c.whereText)).length = 3 ∧
      (∀ p ∈ c.filters ++ c.search, Formed Books.lending Books.loan "loan" p) ∧
      ∃ p, read c.whereText c.args = some p := by
  have key : PlainKey Books.lending.settings := ⟨"ID", rfl, by decide⟩
  have ok : (compileQuery Books.lending true Books.lent (.entity "Loan") none).result = .ok _ := rfl
  obtain ⟨outlined, ⟨_, described, formed⟩, reading, _⟩ := compileQuery_outlined key ok
  obtain ⟨search, inside, outline⟩ := outlined true
  cases described
  have found : (compileSearch Books.lending "x" (.entity "Loan") (some "loan")).result = .ok _ := rfl
  have same : search = _ := Except.ok.inj (outline.searched.symm.trans found)
  refine ⟨_, ok, ⟨search, inside, outline, ?_, ?_⟩, ?_, formed, _, reading⟩
  · rw [same]
    rfl
  · rw [← outline.conjuncts.length_eq]
    rfl
  · rw [outline.operands, same]
    rfl

end RowQuery.Compile
