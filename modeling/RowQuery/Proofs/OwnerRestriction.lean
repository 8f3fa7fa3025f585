import Mathlib.Algebra.Group.Int.Defs
import Mathlib.Algebra.Group.Nat.Defs
import RowQuery.Proofs.FilterGrammar
import RowQuery.Proofs.WhereStructure

/-!
# Restrictions to owners

A query that is restricted to owners compiles to what the query itself compiles to, with one more
condition for each owner behind the filters. Nothing that the query asks for can take a condition away
or weaken it, since all of them stand in one pair of brackets with `AND` between them. A number with more
digits than are written makes no filter, and the query is not restricted at all.
-/

namespace RowQuery

open RowQuery.Sql

/-! ## The filter of an owner -/

/-- A numeral starts with a minus or a digit. -/
theorem head_toString (n : Int) :
    ∃ c cs, (toString n).toList = c :: cs ∧ (c = '-' ∨ c.isDigit = true) := by
  have digits : ∀ m : Nat, ∃ c cs, m.repr.toList = c :: cs ∧ c.isDigit = true := by
    intro m
    rw [Nat.toList_repr]
    cases made : Nat.toDigits 10 m with
    | nil => exact absurd made Nat.toDigits_ne_nil
    | cons c cs =>
      have member : c ∈ Nat.toDigits 10 m := by simp [made]
      exact ⟨c, cs, rfl, Nat.isDigit_of_mem_toDigits (by decide) (by decide) member⟩
  have signed : toString n = if 0 ≤ n then n.toNat.repr else "-" ++ (-n).toNat.repr := Int.repr_eq_if
  rw [signed]
  split
  · obtain ⟨c, cs, same, digit⟩ := digits n.toNat
    exact ⟨c, cs, same, .inr digit⟩
  · exact ⟨'-', (-n).toNat.repr.toList, by simp, .inl rfl⟩

theorem toString_ne_of_head {n : Int} {s : String} {c : Char} {cs : List Char} (head : s.toList = c :: cs)
    (other : c ≠ '-' ∧ c.isDigit = false) : toString n ≠ s := by
  rintro rfl
  obtain ⟨d, ds, same, sign | digit⟩ := head_toString n
  · rw [head] at same
    exact other.1 ((List.cons.inj same).1.trans sign)
  · rw [head] at same
    rw [← (List.cons.inj same).1, other.2] at digit
    cases digit

/-- No number is a word for a missing value. -/
theorem isNullWord_toString (n : Int) : isNullWord (toString n) = false := by
  have upper : toString n ≠ "NULL" := toString_ne_of_head (c := 'N') rfl (by decide)
  have lower : toString n ≠ "null" := toString_ne_of_head (c := 'n') rfl (by decide)
  have short : toString n ≠ "nil" := toString_ne_of_head (c := 'n') rfl (by decide)
  rw [isNullWord, beq_eq_false_iff_ne.mpr upper, beq_eq_false_iff_ne.mpr lower,
    beq_eq_false_iff_ne.mpr short]
  rfl

/-- The filter that a field has the number of an owner. -/
def Filter.ofOwner (owner : Int × String) : Filter := ⟨owner.2, .equal, toString owner.1⟩

theorem Filter.valueCount_ofOwner (owner : Int × String) : (Filter.ofOwner owner).valueCount = 1 := by
  rw [valueCount_of_value (isNullWord_toString owner.1), rawValues_of_single rfl]
  rfl

namespace Query

/-- The query with some more filters behind its own. -/
def narrowedBy (q : Query) (filters : List Filter) : Query := { q with filters := q.filters ++ filters }

/-- An integer is written if it has not too many digits. -/
theorem isWritable_int {n : Int} : (Detail.int n).isWritable = true ↔ n.natAbs < 10 ^ Number.maxDigits := by
  rw [Detail.isWritable, decide_eq_true_eq]
  exact Nat.length_toDigits_le_iff (by decide) (by decide)

/-- A name that is a well-formed path can name the field of an owner whose number is written. -/
theorem withOwner_of_short (q : Query) {owner : Int} {name : String} (accepted : Filter.isPathText name = true)
    (short : owner.natAbs < 10 ^ Number.maxDigits) :
    q.withOwner owner name = .ok (q.narrowedBy [.ofOwner (owner, name)]) := by
  have nonempty : toString owner ≠ "" := by
    obtain ⟨c, cs, same, _⟩ := head_toString owner
    intro empty
    rw [empty] at same
    cases same
  have written : (Detail.int owner).written = .ok (toString owner) := if_pos (isWritable_int.mpr short)
  have made : Filter.ofDraft ⟨some (.text name), some (.text Operation.equal.name), some (.text (toString owner))⟩ =
      .ok (.ofOwner (owner, name)) :=
    (Filter.ofDraft_draft (.ofOwner (owner, name))).mpr ⟨accepted, nonempty⟩
  rw [withOwner, restrictTo, written]
  simp only [bind, Except.bind, made]
  rfl

theorem withOwner_of_long (q : Query) {owner : Int} (name : String)
    (long : 10 ^ Number.maxDigits ≤ owner.natAbs) : q.withOwner owner name = .error .longNumeral := by
  have written : (Detail.int owner).written = .error .longNumeral :=
    if_neg (isWritable_int.not.mpr (Nat.not_lt.mpr long))
  rw [withOwner, restrictTo, written]
  rfl

section Owners

variable {owners : List (Int × String)} (accepted : ∀ x ∈ owners, Filter.isPathText x.2 = true)

include accepted

/-- Restrictions to owners are made one after the other, each behind those before. -/
theorem foldlM_withOwner_of_short (short : ∀ x ∈ owners, x.1.natAbs < 10 ^ Number.maxDigits) (q : Query) :
    owners.foldlM (fun q x => q.withOwner x.1 x.2) q = .ok (q.narrowedBy (owners.map Filter.ofOwner)) := by
  induction owners generalizing q with
  | nil => simp [narrowedBy, pure, Except.pure]
  | cons x xs ih =>
    have rest := ih (fun y member => accepted y (by simp [member])) (fun y member => short y (by simp [member]))
      (q.narrowedBy [.ofOwner x])
    rw [List.foldlM_cons, withOwner_of_short q (accepted x (by simp)) (short x (by simp))]
    simpa [bind, Except.bind, narrowedBy] using rest

/-- They are given up at the first owner whose number is not written. -/
theorem foldlM_withOwner_of_long (long : ∃ x ∈ owners, 10 ^ Number.maxDigits ≤ x.1.natAbs) (q : Query) :
    owners.foldlM (fun q x => q.withOwner x.1 x.2) q = .error .longNumeral := by
  induction owners generalizing q with
  | nil => simp at long
  | cons x xs ih =>
    rw [List.foldlM_cons]
    by_cases first : 10 ^ Number.maxDigits ≤ x.1.natAbs
    · rw [withOwner_of_long q x.2 first]
      rfl
    · rw [withOwner_of_short q (accepted x (by simp)) (Nat.not_le.mp first)]
      obtain ⟨y, member, long⟩ := long
      rcases List.mem_cons.mp member with rfl | member
      · exact absurd long first
      · exact ih (fun y member => accepted y (by simp [member])) ⟨y, member, long⟩ _

end Owners

end Query

namespace Sql

theorem print_joined (between : List Token) (parts : List (List Token)) :
    Token.print (Token.joined between parts) =
      (Token.print between).intercalate (parts.map Token.print) := by
  unfold Token.joined
  induction parts with
  | nil => simp [Token.print]
  | cons part parts ih =>
    cases parts with
    | nil => simp
    | cons next rest =>
      rw [List.intercalate_cons_cons, print_append, print_append, ih]
      exact String.intercalate_cons_cons.symm

end Sql

namespace Compile

open RowQuery.Schema RowQuery.Join

/-! ## The text of a condition -/

/-- The texts of filters in brackets, with `AND` between them; nothing if there are none. -/
def filterGroup : List String → List String
  | [] => []
  | t :: ts => ["(" ++ " AND ".intercalate (t :: ts) ++ ")"]

namespace Compiled

/-- The texts of the filters. -/
def filterTexts (c : Compiled) : List String := c.filters.map (·.text c.style)

/-- The texts of the search, if there is one, and of the discriminators. -/
def furtherTexts (c : Compiled) : List String :=
  (if c.search.isEmpty then [] else [SearchPart.text c.style ⟨c.search, []⟩]) ++
    c.discriminators.map fun x => x.predicate.text c.joinStyle

/-- The text of the whole condition: the filters in brackets, then the others, with `AND` between. -/
theorem whereText_eq (c : Compiled) :
    c.whereText = " AND ".intercalate (filterGroup c.filterTexts ++ c.furtherTexts) := by
  have and : Token.print (Token.spaced "AND") = " AND " := by decide
  have filters : Token.print (Token.bracketed (connectedTokens c.style "AND" c.filters)) =
      "(" ++ " AND ".intercalate c.filterTexts ++ ")" := by
    rw [Token.bracketed, print_append, print_append, connectedTokens, print_joined, and, List.map_map]
    rfl
  rw [whereText, whereTokens, print_joined, and, conditionTokens, furtherTexts, ← List.append_assoc,
    List.map_append, List.map_append, List.map_map]
  congr 3
  · cases same : c.filters with
    | nil => simp [filterTexts, filterGroup, same]
    | cons p ps =>
      rw [same] at filters
      simp [filterTexts, filterGroup, same, filters]
  · split <;> rfl

end Compiled

/-! ## Filters on fields of the entity itself -/

theorem forall₂_append_left_iff {α β : Type} {R : α → β → Prop} {xs ys : List α} {zs : List β} :
    List.Forall₂ R (xs ++ ys) zs ↔
      ∃ us vs, zs = us ++ vs ∧ List.Forall₂ R xs us ∧ List.Forall₂ R ys vs := by
  induction xs generalizing zs with
  | nil =>
    constructor
    · intro related
      exact ⟨[], zs, rfl, .nil, related⟩
    · rintro ⟨us, vs, rfl, none, related⟩
      cases none
      exact related
  | cons x xs ih =>
    rw [List.cons_append, List.forall₂_cons_left_iff]
    constructor
    · rintro ⟨z, zs, first, rest, rfl⟩
      obtain ⟨us, vs, rfl, left, right⟩ := ih.mp rest
      exact ⟨z :: us, vs, rfl, .cons first left, right⟩
    · rintro ⟨us, vs, rfl, left, right⟩
      cases left with
      | @cons _ u _ us first left => exact ⟨u, us ++ vs, first, ih.mpr ⟨us, vs, rfl, left, right⟩, rfl⟩

section Direct

variable {ctx : Context} {flt : Filter} {subject : Subject} {table : Option String}

/-- A filter whose path has one segment goes through no relation. -/
theorem paths_narrow {site : Site} {n : Narrowing} (single : flt.path.rest = [])
    (ok : (narrow ctx flt flt.path.rest flt.path.head site).result = .ok n) : n.paths = [] := by
  rw [single] at ok
  cases narrowed_of_narrow ok
  rfl

/-- Such a filter is compiled alone to the one condition that its walk comes to. -/
theorem compileFilters_single_eq_ok (single : flt.path.rest = []) {part : FilterPart} :
    (compileFilters ctx [flt] subject table).result = .ok part ↔
      ∃ schema p, ctx.schemaOf subject = .ok schema ∧
        (narrow ctx flt flt.path.rest flt.path.head (.root schema (rootTable schema table))).result =
          .ok ⟨p, []⟩ ∧ part = ⟨[p], []⟩ := by
  rw [compileFilters_eq_ok]
  constructor
  · rintro ⟨schema, found, described, walks, rfl⟩
    obtain ⟨⟨p, paths⟩, _, walk, none, rfl⟩ := List.forall₂_cons_left_iff.mp walks
    cases none
    cases (paths_narrow single walk : paths = [])
    exact ⟨schema, p, described, walk, rfl⟩
  · rintro ⟨schema, p, described, walk, rfl⟩
    exact ⟨schema, [⟨p, []⟩], described, .cons walk .nil, rfl⟩

/-- Behind other filters such filters are compiled to what each of them is compiled to alone, and they
    need no joins. -/
theorem compileFilters_append_eq_ok {filters more : List Filter} {part : FilterPart}
    (single : ∀ flt ∈ more, flt.path.rest = []) :
    (compileFilters ctx (filters ++ more) subject table).result = .ok part ↔
      ∃ before ps, (compileFilters ctx filters subject table).result = .ok before ∧
        List.Forall₂ (fun flt p => (compileFilters ctx [flt] subject table).result = .ok ⟨[p], []⟩)
          more ps ∧
        part = ⟨before.conditions ++ ps, before.paths⟩ := by
  constructor
  · intro ok
    obtain ⟨schema, found, described, walks, rfl⟩ := compileFilters_eq_ok.mp ok
    obtain ⟨first, second, rfl, walksFirst, walksSecond⟩ := forall₂_append_left_iff.mp walks
    have pathless : second.flatMap (·.paths) = [] := by
      rw [List.flatMap_eq_nil_iff]
      intro n member
      obtain ⟨flt, inMore, walk⟩ := exists_left_of_forall₂ walksSecond member
      exact paths_narrow (single flt inMore) walk
    refine ⟨_, second.map (·.condition),
      compileFilters_eq_ok.mpr ⟨schema, first, described, walksFirst, rfl⟩, ?_, ?_⟩
    · rw [List.forall₂_map_right_iff]
      refine ((List.forall₂_and_left _ _).mpr ⟨single, walksSecond⟩).imp ?_
      rintro flt ⟨p, paths⟩ ⟨single, walk⟩
      cases (paths_narrow single walk : paths = [])
      exact (compileFilters_single_eq_ok single).mpr ⟨schema, p, described, walk, rfl⟩
    · simp [pathless]
  · rintro ⟨_, ps, ok, each, rfl⟩
    obtain ⟨schema, first, described, walks, rfl⟩ := compileFilters_eq_ok.mp ok
    have pathless : (ps.map fun p => (⟨p, []⟩ : Narrowing)).flatMap (·.paths) = [] := by
      rw [List.flatMap_map, List.flatMap_eq_nil_iff]
      intro p _
      rfl
    refine compileFilters_eq_ok.mpr ⟨schema, first ++ ps.map (⟨·, []⟩), described, ?_, ?_⟩
    · refine List.rel_append walks (List.forall₂_map_right_iff.mpr ?_)
      refine ((List.forall₂_and_left _ _).mpr ⟨single, each⟩).imp ?_
      rintro flt p ⟨single, alone⟩
      obtain ⟨_, _, described', walk, same⟩ := (compileFilters_single_eq_ok single).mp alone
      cases described.symm.trans described'
      cases same
      exact walk
    · simp [pathless, Function.comp_def]

end Direct

/-! ## Restricted queries -/

/-- The table that a query has its columns from does not depend on whether it is named again. -/
theorem compileFilters_rootTable {ctx : Context} {filters : List Filter} {subject : Subject}
    {schema : Schema} (described : ctx.schemaOf subject = .ok schema) (table : Option String)
    (part : FilterPart) :
    (compileFilters ctx filters subject (some (rootTable schema table))).result = .ok part ↔
      (compileFilters ctx filters subject table).result = .ok part := by
  simp only [compileFilters_eq_ok, described, Except.ok.injEq]
  constructor
  · rintro ⟨_, found, rfl, walks, rfl⟩
    rw [rootTable_rootTable] at walks
    exact ⟨_, found, rfl, walks, rfl⟩
  · rintro ⟨_, found, rfl, walks, rfl⟩
    rw [← rootTable_rootTable] at walks
    exact ⟨_, found, rfl, walks, rfl⟩

namespace Stages.Yield

variable {ctx : Context} {strict : Bool} {q : Query} {subject : Subject} {table : Option String}
  {c : Compiled} {s : Stages} {more : List Filter}

/-- With more filters on fields of the entity itself, a query goes through the same stages: only the
    filters have conditions more. -/
theorem narrowedBy (yields : s.Yield ctx strict q subject table c)
    (single : ∀ flt ∈ more, flt.path.rest = []) {ps : List Predicate}
    (each : List.Forall₂
      (fun flt p => (compileFilters ctx [flt] subject table).result = .ok ⟨[p], []⟩) more ps) :
    Yield { s with filters := ⟨s.filters.conditions ++ ps, s.filters.paths⟩ } ctx strict
      (q.narrowedBy more) subject table { c with filters := c.filters ++ ps } := by
  have filters := (compileFilters_rootTable yields.schema table _).mp yields.filters
  have appended := (compileFilters_append_eq_ok single).mpr ⟨s.filters, ps, filters, each, rfl⟩
  constructor
  case filters => exact (compileFilters_rootTable yields.schema table _).mpr appended
  case compiled => rw [yields.compiled]; rfl
  case schema => exact yields.schema
  case search => exact yields.search
  case preloads => exact yields.preloads
  case joins => exact yields.joins
  case sorts => exact yields.sorts
  case select => exact yields.select
  case level => exact yields.level

/-- A query that is compiled with more filters is compiled without them. -/
theorem of_narrowedBy (yields : s.Yield ctx strict (q.narrowedBy more) subject table c)
    (single : ∀ flt ∈ more, flt.path.rest = []) :
    ∃ before ps, List.Forall₂
        (fun flt p => (compileFilters ctx [flt] subject table).result = .ok ⟨[p], []⟩) more ps ∧
      s.filters = ⟨before.conditions ++ ps, before.paths⟩ ∧
      Yield { s with filters := before } ctx strict q subject table
        { c with filters := before.conditions } := by
  have filters := (compileFilters_rootTable yields.schema table _).mp yields.filters
  obtain ⟨before, ps, alone, each, same⟩ := (compileFilters_append_eq_ok single).mp filters
  have paths : s.paths = ({ s with filters := before } : Stages).paths := by
    unfold Stages.paths
    rw [same]
  refine ⟨before, ps, each, same, ?_⟩
  have preloads : s.preloads ctx (q.narrowedBy more) =
      ({ s with filters := before } : Stages).preloads ctx q := by
    unfold Stages.preloads
    rw [paths]
    rfl
  have joins := yields.joins
  have sorts := yields.sorts
  rw [preloads, paths] at joins
  rw [paths] at sorts
  constructor
  case filters => exact (compileFilters_rootTable yields.schema table _).mpr alone
  case compiled =>
    rw [yields.compiled, preloads, paths]
    rfl
  case schema => exact yields.schema
  case search => exact yields.search
  case preloads => exact yields.preloads
  case joins => exact joins
  case sorts => exact sorts
  case select => exact yields.select
  case level => exact yields.level

end Stages.Yield

/-- The condition of a filter on a field of the entity itself speaks of one quoted column. -/
theorem regular_of_single {ctx : Context} {flt : Filter} {subject : Subject} {table : Option String}
    {p : Predicate} (single : flt.path.rest = [])
    (alone : (compileFilters ctx [flt] subject table).result = .ok ⟨[p], []⟩) :
    p.Regular ∧ p.Plain ∧ p.args.length = flt.valueCount := by
  obtain ⟨_, _, _, walk, same⟩ := (compileFilters_single_eq_ok single).mp alone
  cases same
  have narrowed := narrowed_of_narrow walk
  refine ⟨(formed_narrowed narrowed).regular, ?_, length_args_narrowed narrowed⟩
  rw [single] at narrowed
  cases narrowed with
  | leaf shallow found column condition =>
    intro c member
    have same := columns_leafCondition (leafCondition_eq_ok condition) c member
    exact Column.plain_of_quoted (by rw [same])

/-- What a query is compiled to, and what it is compiled to when it is restricted to owners, each of which
    has a condition among `ps`. -/
structure Restricted (ctx : Context) (subject : Subject) (table : Option String)
    (owners : List (Int × String)) (c restricted : Compiled) (ps : List Predicate) : Prop where
  /-- Each condition is what its filter is compiled to alone. It binds one value, and is read as what
      it is. -/
  alone : List.Forall₂ (fun x p =>
    (compileFilters ctx [.ofOwner x] subject table).result = .ok ⟨[p], []⟩ ∧
      (∃ v, p.args = [v]) ∧ read (p.text c.style) p.args = some p) owners ps
  /-- Nothing else is changed. -/
  same : restricted = { c with filters := c.filters ++ ps }
  args : restricted.args = argsOf c.filters ++ argsOf ps ++ argsOf c.search
  text : c.whereText = " AND ".intercalate (filterGroup c.filterTexts ++ c.furtherTexts)
  restrictedText : restricted.whereText = " AND ".intercalate
    (filterGroup (c.filterTexts ++ ps.map (·.text c.style)) ++ c.furtherTexts)
  /-- Both texts are read as what they are, if the names in them that are not quoted are plain. -/
  reading : c.Plain →
    read c.whereText c.args = c.condition? ∧
      read restricted.whereText restricted.args = restricted.condition?
  plain : PlainKey ctx.settings → c.Plain
  /-- What satisfies the restricted condition satisfies the original one and those of all owners. -/
  holds : ∀ {δ : Type} (E : Engine δ) (db : Database δ) (scopes : Scopes δ),
    (∀ p ∈ restricted.condition?, p.Holds E db scopes) ↔
      (∀ p ∈ c.condition?, p.Holds E db scopes) ∧ ∀ p ∈ ps, p.Holds E db scopes

/-- A compiled query with more conditions behind its filters is restricted by them. -/
theorem restricted_of_yield {ctx : Context} {strict : Bool} {q : Query} {subject : Subject}
    {table : Option String} {owners : List (Int × String)} {c : Compiled} {ps : List Predicate} {s : Stages}
    (single : ∀ x ∈ owners, (Path.ofText x.2).rest = [])
    (yields : s.Yield ctx strict q subject table c)
    (each : List.Forall₂ (fun x p =>
      (compileFilters ctx [.ofOwner x] subject table).result = .ok ⟨[p], []⟩) owners ps) :
    Restricted ctx subject table owners c { c with filters := c.filters ++ ps } ps := by
  have facts : List.Forall₂ (fun x p => p.Regular ∧ p.Plain ∧ p.args.length = 1) owners ps := by
    refine ((List.forall₂_and_left _ _).mpr ⟨single, each⟩).imp ?_
    rintro x p ⟨single, alone⟩
    rw [← Filter.valueCount_ofOwner x]
    exact regular_of_single single alone
  have regularFilters := yields.forall_filters (P := Predicate.Regular) fun walk =>
    (formed_narrowed walk).regular
  have regularSearch := yields.forall_search (P := Predicate.Regular) fun searched p member =>
    (formed_searched searched (fun f => List.mem_of_mem_filter) (by simp) p member).regular
  have ownersRegular : ∀ p ∈ ps, p.Regular ∧ p.Plain := by
    intro p member
    obtain ⟨_, _, regular, plain, _⟩ := exists_left_of_forall₂ facts member
    exact ⟨regular, plain⟩
  constructor
  case alone =>
    refine each.mp ?_ facts
    rintro x p alone ⟨regular, plain, one⟩
    exact ⟨alone, List.length_eq_one_iff.mp one, read_text c.style plain regular.standard⟩
  case same => rfl
  case args => simp [Compiled.args, argsOf_append]
  case text => exact c.whereText_eq
  case restrictedText =>
    rw [Compiled.whereText_eq, Compiled.filterTexts, List.map_append]
    rfl
  case reading =>
    intro plain
    refine ⟨Compiled.read_where plain regularFilters regularSearch, ?_⟩
    refine Compiled.read_where ⟨?_, plain.2, plain.3, plain.4, plain.5, plain.6⟩ ?_ regularSearch
    · exact List.forall_mem_append.mpr ⟨plain.filters, fun p member => (ownersRegular p member).2⟩
    · exact List.forall_mem_append.mpr ⟨regularFilters, fun p member => (ownersRegular p member).1⟩
  case plain =>
    intro key
    exact plain_compileQuery key yields.result_eq
  case holds =>
    intro δ E db scopes
    rw [Compiled.holds_condition, Compiled.holds_condition, List.forall_mem_append]
    tauto

section Narrowed

variable {ctx : Context} {strict : Bool} {q : Query} {subject : Subject} {table : Option String}
  {owners : List (Int × String)}

theorem rest_ofOwner (single : ∀ x ∈ owners, (Path.ofText x.2).rest = []) :
    ∀ flt ∈ owners.map Filter.ofOwner, flt.path.rest = [] := by
  intro flt member
  obtain ⟨x, inside, rfl⟩ := List.mem_map.mp member
  exact single x inside

/-- What a query with the filters of owners is compiled to is restricted by them. -/
theorem restricted_of_narrowedBy (single : ∀ x ∈ owners, (Path.ofText x.2).rest = []) {restricted : Compiled}
    (ok : (compileQuery ctx strict (q.narrowedBy (owners.map Filter.ofOwner)) subject table).result =
      .ok restricted) :
    ∃ c ps, (compileQuery ctx strict q subject table).result = .ok c ∧
      Restricted ctx subject table owners c restricted ps := by
  obtain ⟨s, yields⟩ := compileQuery_eq_ok ok
  obtain ⟨before, ps, each, same, alone⟩ := yields.of_narrowedBy (rest_ofOwner single)
  rw [List.forall₂_map_left_iff] at each
  have made := restricted_of_yield single alone each
  have filters : restricted.filters = before.conditions ++ ps := by
    rw [yields.compiled]
    exact congrArg FilterPart.conditions same
  refine ⟨_, ps, alone.result_eq, ?_⟩
  simp only [← filters] at made
  exact made

/-- A query is compiled with the filters of owners if it is without them and each of them is alone. -/
theorem compileQuery_narrowedBy (single : ∀ x ∈ owners, (Path.ofText x.2).rest = []) :
    (∃ restricted, (compileQuery ctx strict (q.narrowedBy (owners.map Filter.ofOwner)) subject table).result =
        .ok restricted) ↔
      (∃ c, (compileQuery ctx strict q subject table).result = .ok c) ∧
        ∀ x ∈ owners, ∃ part, (compileFilters ctx [.ofOwner x] subject table).result = .ok part := by
  constructor
  · rintro ⟨restricted, ok⟩
    obtain ⟨c, ps, whole, made⟩ := restricted_of_narrowedBy single ok
    refine ⟨⟨c, whole⟩, ?_⟩
    intro x member
    obtain ⟨p, _, alone, _⟩ := exists_left_of_forall₂ (List.Forall₂.flip (R := flip _) made.alone) member
    exact ⟨_, alone⟩
  · rintro ⟨⟨c, ok⟩, each⟩
    obtain ⟨s, yields⟩ := compileQuery_eq_ok ok
    obtain ⟨ps, each⟩ : ∃ ps, List.Forall₂ (fun flt p =>
        (compileFilters ctx [flt] subject table).result = .ok ⟨[p], []⟩) (owners.map Filter.ofOwner) ps := by
      apply exists_forall₂_iff.mpr
      intro flt member
      obtain ⟨x, inside, rfl⟩ := List.mem_map.mp member
      obtain ⟨part, alone⟩ := each x inside
      obtain ⟨_, p, _, _, rfl⟩ := (compileFilters_single_eq_ok (rest_ofOwner single _ member)).mp alone
      exact ⟨p, alone⟩
    exact ⟨_, (yields.narrowedBy (rest_ofOwner single) each).result_eq⟩

end Narrowed

/-- A query that is restricted to owners is compiled if and only if the query itself is, the number of each
    owner can be written, and the filter that is made of it is compiled by itself. What it is compiled to
    then is what the query is compiled to, with one more condition for each owner at the end of its filters.
    A restriction fails only for a number that cannot be written. -/
theorem compileQuery_withOwner {ctx : Context} {strict : Bool} {q : Query} {subject : Subject}
    {table : Option String} {owners : List (Int × String)}
    (accepted : ∀ x ∈ owners, Filter.isPathText x.2 = true ∧ (Path.ofText x.2).rest = []) :
    ((∃ r restricted, owners.foldlM (fun q x => q.withOwner x.1 x.2) q = .ok r ∧
        (compileQuery ctx strict r subject table).result = .ok restricted) ↔
      (∃ c, (compileQuery ctx strict q subject table).result = .ok c) ∧
        ∀ x ∈ owners, x.1.natAbs < 10 ^ Number.maxDigits ∧
          ∃ part, (compileFilters ctx [.ofOwner x] subject table).result = .ok part) ∧
    (∀ e, owners.foldlM (fun q x => q.withOwner x.1 x.2) q = .error e ↔
      e = .longNumeral ∧ ∃ x ∈ owners, 10 ^ Number.maxDigits ≤ x.1.natAbs) ∧
    ∀ r restricted, owners.foldlM (fun q x => q.withOwner x.1 x.2) q = .ok r →
      (compileQuery ctx strict r subject table).result = .ok restricted →
        ∃ c ps, (compileQuery ctx strict q subject table).result = .ok c ∧
          Restricted ctx subject table owners c restricted ps := by
  have single : ∀ x ∈ owners, (Path.ofText x.2).rest = [] := fun x member => (accepted x member).2
  have named : ∀ x ∈ owners, Filter.isPathText x.2 = true := fun x member => (accepted x member).1
  by_cases long : ∃ x ∈ owners, 10 ^ Number.maxDigits ≤ x.1.natAbs
  · rw [Query.foldlM_withOwner_of_long named long]
    refine ⟨⟨?_, ?_⟩, ?_, ?_⟩
    · rintro ⟨_, _, made, _⟩
      cases made
    · rintro ⟨_, each⟩
      obtain ⟨x, member, long⟩ := long
      exact absurd (each x member).1 (Nat.not_lt.mpr long)
    · intro e
      rw [Except.error.injEq, and_iff_left long, eq_comm]
    · intro _ _ made
      cases made
  · have short : ∀ x ∈ owners, x.1.natAbs < 10 ^ Number.maxDigits := by
      intro x member
      exact Nat.not_le.mp fun above => long ⟨x, member, above⟩
    rw [Query.foldlM_withOwner_of_short named short]
    refine ⟨?_, ?_, ?_⟩
    · simp only [Except.ok.injEq, exists_and_left, exists_eq_left']
      rw [compileQuery_narrowedBy single]
      constructor
      · rintro ⟨whole, each⟩
        exact ⟨whole, fun x member => ⟨short x member, each x member⟩⟩
      · rintro ⟨whole, each⟩
        exact ⟨whole, fun x member => (each x member).2⟩
    · intro e
      constructor
      · intro made
        cases made
      · rintro ⟨_, above⟩
        exact absurd above long
    · rintro _ restricted ⟨⟩ ok
      exact restricted_of_narrowedBy single ok

/-- A query with a search and with a filter whose value looks like a condition. -/
def Books.searching : Query :=
  { term := "x", filters := [⟨"Author.Name", .like, "%) OR (1 = 1"⟩], limit := 5 }

/-- Two owners restrict the query, and a third one whose number is not written makes it fail. -/
theorem compileQuery_withOwner_books :
    (∃ r c restricted ps,
      [(7, "Title"), (-3, "Title")].foldlM (fun q x => q.withOwner x.1 x.2) Books.searching = .ok r ∧
      (compileQuery Books.context true Books.searching (.entity "Book") none).result = .ok c ∧
      (compileQuery Books.context true r (.entity "Book") none).result = .ok restricted ∧
      Restricted Books.context (.entity "Book") none [(7, "Title"), (-3, "Title")] c restricted ps ∧
      ps.length = 2 ∧ restricted.filters.length = 3 ∧ c.Plain) ∧
    [(7, "Title"), (-3, "Title"), (-10 ^ Number.maxDigits, "Title")].foldlM
      (fun q x => q.withOwner x.1 x.2) Books.searching = .error .longNumeral := by
  have title : Filter.isPathText "Title" = true ∧ (Path.ofText "Title").rest = [] := ⟨rfl, rfl⟩
  have accepted : ∀ numbers : List Int, ∀ x ∈ numbers.map (·, "Title"),
      Filter.isPathText x.2 = true ∧ (Path.ofText x.2).rest = [] := by
    intro numbers x member
    obtain ⟨_, _, rfl⟩ := List.mem_map.mp member
    exact title
  constructor
  · obtain ⟨compiled, _, restricts⟩ :=
      @compileQuery_withOwner Books.context true Books.searching (.entity "Book") none _ (accepted [7, -3])
    have plain : (compileQuery Books.context true Books.searching (.entity "Book") none).result = .ok _ := rfl
    have short : ∀ n : Int, n.natAbs < 10 → n.natAbs < 10 ^ Number.maxDigits := fun n small =>
      Nat.lt_of_lt_of_le small (Nat.le_self_pow (by decide) 10)
    obtain ⟨r, restricted, narrowed, ok⟩ := compiled.mpr ⟨⟨_, plain⟩, by
      intro x member
      rcases List.mem_cons.mp member with rfl | member
      · exact ⟨short 7 (by decide), _, rfl⟩
      · cases List.mem_singleton.mp member
        exact ⟨short (-3) (by decide), _, rfl⟩⟩
    obtain ⟨c, ps, whole, made⟩ := restricts r restricted narrowed ok
    have two := made.alone.length_eq
    refine ⟨r, c, restricted, ps, narrowed, whole, ok, made, two.symm, ?_, made.plain ⟨"ID", rfl, by decide⟩⟩
    rw [made.same, List.length_append, ← two, ← Except.ok.inj (plain.symm.trans whole)]
    rfl
  · obtain ⟨_, fails, _⟩ := @compileQuery_withOwner Books.context true Books.searching (.entity "Book") none _
      (accepted [7, -3, -10 ^ Number.maxDigits])
    have ten : Int.natAbs 10 = 10 := rfl
    have digits : 10 ^ Number.maxDigits = (-10 ^ Number.maxDigits : Int).natAbs := by
      rw [Int.natAbs_neg, Int.natAbs_pow, ten]
    exact (fails _).mpr ⟨rfl, (-10 ^ Number.maxDigits, "Title"), by simp, Nat.le_of_eq digits⟩

end Compile

end RowQuery
