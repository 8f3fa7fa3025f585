import RowQuery.Proofs.Concatenation
import RowQuery.Proofs.PathNames

/-!
# Languages as segments of paths

A path that ends at a translated column may go on with the code of a language. Filters and sorts by it are compiled as
those by the shorter path are in that language, whatever the language of the request. Both walk along the same
relations; what they read at the end is compared first, and then the walks, relation by relation. Only the name that a
path is reported by where it crosses too many relations is not the same.
-/

namespace RowQuery

namespace Text

theorem splitChars_of_free {sep : Char} {cs : List Char} (free : sep ∉ cs) : splitChars sep cs = (cs, []) := by
  induction cs with
  | nil => rfl
  | cons c cs ih =>
    rw [List.mem_cons, not_or] at free
    simp [splitChars, ih free.2, Ne.symm free.1]

/-- What stands behind the last separator is the last part. -/
theorem splitChars_append {sep : Char} {last : List Char} (free : sep ∉ last) (cs : List Char) :
    splitChars sep (cs ++ sep :: last) = ((splitChars sep cs).1, (splitChars sep cs).2 ++ [last]) := by
  induction cs with
  | nil => simp [splitChars, splitChars_of_free free]
  | cons c cs ih =>
    simp only [List.cons_append, splitChars, ih]
    split <;> rfl

end Text

namespace Path

/-- A segment is there and has no dots. -/
theorem dotless_of_isSegment {segment : String} (accepted : Filter.isSegment segment = true) :
    segment ≠ "" ∧ '.' ∉ segment.toList := by
  have dotless : ∀ {name : String}, IsName name → '.' ∉ name.toList := by
    intro name isName dot
    have inName := isSegmentChar_of_isName isName '.' dot
    revert inName
    decide
  constructor
  · rintro rfl
    cases accepted
  · rcases (isSegment_iff segment).mp accepted with isName | ⟨name, isName, rfl⟩
    · exact dotless isName
    · simpa using dotless isName

/-- A path that goes on with one more segment. -/
theorem ofText_append {code : String} (free : '.' ∉ code.toList) (name : String) :
    Path.ofText (name ++ "." ++ code) = ⟨(Path.ofText name).head, (Path.ofText name).rest ++ [code]⟩ := by
  have chars : (name ++ "." ++ code).toList = name.toList ++ '.' :: code.toList := by simp
  simp only [Path.ofText, chars, Text.splitChars_append free]
  simp

end Path

namespace Compile

open RowQuery.Schema RowQuery.Sql RowQuery.Join

/-! ## Walks under two names -/

/-- Outcomes that are the same, up to the name of a path that crosses too many relations. -/
inductive SameButName (name name' : String) {α : Type} : Except Error α → Except Error α → Prop where
  | same (x : Except Error α) : SameButName name name' x x
  | tooDeep (limit : Detail) : SameButName name name' (.error (.tooDeep name limit)) (.error (.tooDeep name' limit))

namespace SameButName

variable {name name' : String} {α β : Type}

theorem bind {x y : Except Error α} {f g : α → Except Error β} (first : SameButName name name' x y)
    (next : ∀ a, x = .ok a → SameButName name name' (f a) (g a)) : SameButName name name' (x >>= f) (y >>= g) := by
  cases first with
  | tooDeep limit => exact .tooDeep limit
  | same x =>
    cases x with
    | error e => exact .same (.error e)
    | ok a => exact next a rfl

/-- A step that has no part in the name. -/
theorem after {x : Except Error α} {f g : α → Except Error β}
    (next : ∀ a, x = .ok a → SameButName name name' (f a) (g a)) : SameButName name name' (x >>= f) (x >>= g) :=
  (same x).bind next

/-- What is done with a result has no part in the name. -/
theorem andThen {x y : Except Error α} (first : SameButName name name' x y) (f : α → Except Error β) :
    SameButName name name' (x >>= f) (y >>= f) :=
  first.bind fun a _ => .same (f a)

theorem map {x y : Except Error α} (first : SameButName name name' x y) (f : α → β) :
    SameButName name name' (x.map f) (y.map f) := by
  cases first with
  | tooDeep limit => exact .tooDeep limit
  | same => exact .same _

/-- A result is the same under both names. -/
theorem eq_ok {x y : Except Error α} (related : SameButName name name' x y) {a : α} (ok : x = .ok a) : y = .ok a := by
  cases related with
  | tooDeep => cases ok
  | same => exact ok

end SameButName

theorem sameButName_checkDepth (ctx : Context) (depth : Nat) (name name' : String) :
    SameButName name name' (ctx.checkDepth depth name) (ctx.checkDepth depth name') := by
  refine .after fun exceeds _ => ?_
  cases exceeds with
  | true => exact .tooDeep ctx.maxDepth
  | false => exact .same (.ok ())

/-- The context in another language. -/
def Context.inLanguage (ctx : Context) (code : String) : Context := { ctx with language := some code }

/-- A path that crosses relations, if any, and ends at a translated column. -/
inductive EndsTranslated (ctx : Context) : Schema → String → List String → Prop where
  | column {schema : Schema} {head : String} {f : Field} (found : schema.get? head = some f)
      (column : f.isRelation = false) (translated : f.translated = true) : EndsTranslated ctx schema head []
  | behind {schema related : Schema} {head next : String} {more : List String} {f : Field}
      (found : schema.get? head = some f) (relation : f.isRelation = true)
      (target : (ctx.related f).result = .ok related) (rest : EndsTranslated ctx related next more) :
      EndsTranslated ctx schema head (next :: more)

/-! ## What is read at the end -/

section Reading

variable {ctx : Context} {code : String} {f : Field}

/-- A segment behind a translated column is a language. -/
theorem innerExpr_language (translated : f.translated = true) (entity path : String) (table : Option String) :
    innerExpr ctx entity path f table [code] = do
      let c ← ctx.column f table
      return .language c code := by
  simp [innerExpr, Field.isJson, translated]

/-- A filter's test of a text has no part in the filter's name. -/
theorem test_string (name name' : String) (operation : Operation) (value : String) :
    (⟨name, operation, value⟩ : Filter).test (some .string) =
      (⟨name', operation, value⟩ : Filter).test (some .string) := rfl

variable (single : Detail.text code ≠ ctx.settings.allLanguages) (named : code ≠ "") (translated : f.translated = true)

include single

theorem isAll_inLanguage : (ctx.inLanguage code).localizer.isAll (.text code) = false := by
  simpa [Localizer.isAll, Context.localizer, Context.inLanguage] using single

include named translated

/-- A translated column is read as the text of the context's language, whether it is asked for or not. -/
theorem expr_inLanguage (table : Option String) {language : Detail} (asked : language = .null ∨ language = .text code) :
    (ctx.inLanguage code).localizer.expr f table language = do
      let c ← ctx.column f table
      return .language c code := by
  have own : (ctx.inLanguage code).localizer.languageOr language = .text code := by
    rcases asked with rfl | rfl <;> rfl
  have read : (Detail.text code).isTrue = true := by simpa [Detail.isTrue] using named
  rw [Localizer.expr, own]
  simp only [translated, read, isAll_inLanguage single, Detail.quotable]
  rfl

theorem sortExpr_inLanguage (table : Option String) :
    (ctx.inLanguage code).localizer.sortExpr f table .null = do
      let c ← ctx.column f table
      return .language c code := by
  have own : (ctx.inLanguage code).localizer.languageOr .null = .text code := rfl
  rw [Localizer.sortExpr, own, isAll_inLanguage single, Bool.and_false, if_neg Bool.false_ne_true]
  exact expr_inLanguage single named translated table (.inr rfl)

theorem leafCondition_inLanguage (flt : Filter) (table : Option String) :
    leafCondition (ctx.inLanguage code) flt f table = do
      let c ← ctx.column f table
      return .test (.language c code) (← flt.test (some .string)) := by
  have own : (ctx.inLanguage code).localizer.ownLanguage = .text code := rfl
  rw [leafCondition, own, isAll_inLanguage single, Bool.and_false, if_neg Bool.false_ne_true,
    expr_inLanguage single named translated table (.inl rfl), translated]
  simp

end Reading

/-! ## The walks -/

section Walks

variable {ctx : Context} {code : String} (single : Detail.text code ≠ ctx.settings.allLanguages) (named : code ≠ "")
  (name name' : String)

include single named

/-- A filter's walk in a language comes to what the walk that goes on with the language comes to. -/
theorem sameButName_narrow (operation : Operation) (value : String) {schema : Schema} {head : String}
    {rest : List String} (ends : EndsTranslated ctx schema head rest) (site : Site) (start : site.schema = schema) :
    SameButName name name' (narrow (ctx.inLanguage code) ⟨name, operation, value⟩ rest head site).result
      (narrow ctx ⟨name', operation, value⟩ (rest ++ [code]) head site).result := by
  induction ends generalizing site with
  | @column schema head f found column translated =>
    subst start
    rw [result_narrow_nil, List.nil_append, result_narrow_cons, field_of_get? found, field_of_get? found]
    refine (sameButName_checkDepth ctx site.depth name name').bind fun _ _ => .after fun f same => ?_
    cases same
    simp only [column, Bool.false_eq_true, if_false, leafCondition_inLanguage single named translated,
      innerExpr_language translated, test_string name name']
    simp only [bind_assoc, pure_bind]
    exact .same _
  | @behind schema related head next more f found relation target rest ih =>
    subst start
    rw [result_narrow_cons, List.cons_append, result_narrow_cons, field_of_get? found, field_of_get? found]
    refine (sameButName_checkDepth ctx site.depth name name').bind fun _ _ => .after fun f same => ?_
    cases same
    simp only [relation, if_true]
    refine .after fun related' same => ?_
    cases target.symm.trans same
    have registered : (ctx.inLanguage code).registered? site.walked head = ctx.registered? site.walked head := rfl
    rw [registered]
    cases ctx.registered? site.walked head with
    | some entry => exact (ih (site.behindJoin related entry.1 entry.2) rfl).andThen _
    | none => exact (ih (site.behindSelect related f) rfl).andThen _

/-- A sort's walk in a language comes to what the walk that goes on with the language comes to. -/
theorem sameButName_sortKey (mode : SortMode) {schema : Schema} {head : String} {rest : List String}
    (ends : EndsTranslated ctx schema head rest) (site : SortSite) (start : site.schema = schema) :
    SameButName name name' (sortKey (ctx.inLanguage code) mode name rest head site).result
      (sortKey ctx mode name' (rest ++ [code]) head site).result := by
  induction ends generalizing site with
  | @column schema head f found column translated =>
    subst start
    rw [result_sortKey_nil, List.nil_append, result_sortKey_cons, field_of_get? found, field_of_get? found]
    refine (sameButName_checkDepth ctx site.depth name name').bind fun _ _ => .after fun f same => ?_
    cases same
    simp only [column, Bool.false_eq_true, if_false, sortExpr_inLanguage single named translated,
      innerExpr_language translated]
    exact .same _
  | @behind schema related head next more f found relation target rest ih =>
    subst start
    rw [result_sortKey_cons, List.cons_append, result_sortKey_cons, field_of_get? found, field_of_get? found]
    refine (sameButName_checkDepth ctx site.depth name name').bind fun _ _ => .after fun f same => ?_
    cases same
    simp only [relation, if_true]
    refine .after fun related' same => ?_
    cases target.symm.trans same
    refine .after fun config _ => .after fun own _ => ?_
    exact (ih (site.behind related (site.walked ++ head) config) rfl).andThen _

end Walks

/-! ## Sorts that are found -/

/-- An error of a path all fields of which are found. -/
def OfFound (e : Error) : Prop := e.kind? ≠ some .fieldNotFound

theorem ofFound_of_kind?_eq_none (e : Error) (unreported : e.kind? = none) : OfFound e := by
  simp [OfFound, unreported]

theorem fails_checkDepth_ofFound (ctx : Context) (depth : Nat) (path : String) :
    Fails OfFound (ctx.checkDepth depth path) := by
  unfold Context.checkDepth Depth.check
  refine Fails.bind ?_ fun exceeds _ => ?_
  · unfold Detail.exceeds
    split
    · exact .ok _
    · exact .ok _
    · split
      · exact .ok _
      · exact .error (ofFound_of_kind?_eq_none _ rfl)
  · cases exceeds with
    | true => exact .error (by simp [OfFound, Error.kind?, Error.fault])
    | false => exact .ok ()

theorem fails_append (left right : Detail) : Fails OfFound (left.append right) := by
  unfold Detail.append
  split
  · exact .ok _
  · refine .error (ofFound_of_kind?_eq_none _ ?_)
    cases left <;> rfl

theorem fails_joinType (settings : Settings) : Fails OfFound settings.joinType := by
  unfold Settings.joinType JoinType.ofDetail Detail.member
  split
  · split
    · exact .ok _
    · exact .error (ofFound_of_kind?_eq_none _ rfl)
  · exact .error (ofFound_of_kind?_eq_none _ rfl)

theorem fails_assemble (settings : Settings) (type : RelationType) (table : Option String)
    (joinType : Option JoinType) (keys : Checked Keys) :
    Fails OfFound (Config.assemble settings type table joinType keys) := by
  have given (joinType : JoinType) : Fails OfFound (Config.assemble settings type table (some joinType) keys) := by
    simp only [Config.assemble, pure_bind]
    split
    · exact .ok _
    · exact .error (ofFound_of_kind?_eq_none _ rfl)
  cases joinType with
  | some joinType => exact given joinType
  | none => exact (fails_joinType settings).bind fun joinType _ => given joinType

/-- A relation that cannot be joined is not taken for a field that is missing. -/
theorem fails_sortConfig (ctx : Context) (base path : String) (f : Field) :
    Fails OfFound (sortConfig ctx base path f) := by
  unfold sortConfig
  split
  · exact .ok _
  · unfold Config.ofField
    split
    · exact fails_assemble _ _ _ _ _
    · exact (fails_append _ _).bind fun _ _ => (fails_append _ _).bind fun _ _ => fails_assemble _ _ _ _ _
    · exact (fails_append _ _).bind fun _ _ => (fails_append _ _).bind fun _ _ => fails_assemble _ _ _ _ _
    · exact .error (by simp [OfFound, Error.kind?, Error.fault])

theorem fails_sortClause_ofFound (ctx : Context) (mode : SortMode) (base path : String) (config : Config) :
    Fails OfFound (sortClause ctx mode base path config) := by
  unfold sortClause
  split
  · exact .ok []
  · refine (Registry.fails_join ?_ ?_ ?_ base true).map _
    · exact (config.fails_validate "").mono fun e wrong => by simp [OfFound, wrong.kind?_eq]
    · exact (fails_dialect _ _).mono ofFound_of_kind?_eq_none
    · exact (fails_quotable _).mono ofFound_of_kind?_eq_none

/-- A sort by a translated column finds every field of its path. -/
theorem fails_sortKey_ofFound {ctx : Context} {code : String} (single : Detail.text code ≠ ctx.settings.allLanguages)
    (named : code ≠ "") (mode : SortMode) (name : String) {schema : Schema} {head : String} {rest : List String}
    (ends : EndsTranslated ctx schema head rest) (site : SortSite) (start : site.schema = schema) :
    Fails OfFound (sortKey (ctx.inLanguage code) mode name rest head site).result := by
  have dialect := (fails_dialect ctx.settings ctx.dialect).mono ofFound_of_kind?_eq_none
  induction ends generalizing site with
  | @column schema head f found column translated =>
    subst start
    rw [result_sortKey_nil, field_of_get? found]
    refine (fails_checkDepth_ofFound _ site.depth name).bind fun _ _ => Fails.bind (.ok f) fun f same => ?_
    cases same
    rw [if_neg (by simp [column]), sortExpr_inLanguage single named translated]
    refine Fails.bind (Fails.bind ?_ fun _ _ => .ok _) fun _ _ => .ok _
    exact dialect.bind fun _ _ => .ok _
  | @behind schema related head next more f found relation target rest ih =>
    subst start
    rw [result_sortKey_cons, field_of_get? found]
    refine (fails_checkDepth_ofFound _ site.depth name).bind fun _ _ => Fails.bind (.ok f) fun f same => ?_
    cases same
    rw [if_pos relation]
    refine Fails.bind (.of_ok target) fun related' same => ?_
    cases target.symm.trans same
    refine (fails_sortConfig _ site.table _ f).bind fun config _ => ?_
    refine (fails_sortClause_ofFound _ mode site.table _ config).bind fun own _ => ?_
    exact (ih (site.behind related (site.walked ++ head) config) rfl).bind fun _ _ => .ok _

/-- The order term of a sort in a language is the one of the sort that goes on with the language: neither is written
    by its name alone, for no field is missing. -/
theorem sameButName_sortTerm {ctx : Context} {code : String} (single : Detail.text code ≠ ctx.settings.allLanguages)
    (named : code ≠ "") (free : '.' ∉ code.toList) (mode : SortMode) {schema : Schema} {name : String}
    (ends : EndsTranslated ctx schema (Path.ofText name).head (Path.ofText name).rest) (table : String)
    (direction : Direction) :
    SameButName name (name ++ "." ++ code)
      (sortTerm (ctx.inLanguage code) mode schema table ⟨name, direction⟩).result
      (sortTerm ctx mode schema table ⟨name ++ "." ++ code, direction⟩).result := by
  have walks := sameButName_sortKey single named name (name ++ "." ++ code) mode ends
    { schema, table, walked := "", depth := 0 } rfl
  have found := fails_sortKey_ofFound single named mode name ends { schema, table, walked := "", depth := 0 } rfl
  rw [result_sortTerm, result_sortTerm]
  simp only [Sorting.path, Path.ofText_append free]
  generalize (sortKey (ctx.inLanguage code) mode name _ _ _).result = short at walks found ⊢
  generalize (sortKey ctx mode (name ++ "." ++ code) _ _ _).result = long at walks ⊢
  cases walks with
  | tooDeep limit => exact .tooDeep limit
  | same =>
    cases short with
    | ok x => exact .same _
    | error e =>
      cases e with
      | fieldNotFound entity field path => exact absurd rfl (found _ rfl)
      | _ => exact .same _

/-! ## Whole compilations -/

/-- One filter is compiled by its walk alone. -/
theorem result_compileFilters_singleton {ctx : Context} {subject : Subject} {schema : Schema}
    (described : ctx.schemaOf subject = .ok schema) (flt : Filter) (table : Option String) :
    (compileFilters ctx [flt] subject table).result =
      (narrow ctx flt flt.path.rest flt.path.head (.root schema (rootTable schema table))).result.map fun n =>
        ⟨[n.condition], Text.mergeNew [] n.paths⟩ := by
  rw [result_compileFilters, described]
  cases own : (narrow ctx flt flt.path.rest flt.path.head (.root schema (rootTable schema table))).result <;>
    simp [bind, Except.bind, pure, Except.pure, Except.map, own]

/-- A language behind the path of a translated column does what the language of the context does: filters and sorts
    are compiled to the same, whatever the context's own language is. -/
theorem compile_language_segment {ctx : Context} {subject : Subject} {schema : Schema} {name code : String}
    (described : ctx.schemaOf subject = .ok schema)
    (ends : EndsTranslated ctx schema (Path.ofText name).head (Path.ofText name).rest)
    (segment : Filter.isSegment code = true) (single : Detail.text code ≠ ctx.settings.allLanguages)
    (table : Option String) :
    (∀ (operation : Operation) (value : String), SameButName name (name ++ "." ++ code)
      (compileFilters (ctx.inLanguage code) [⟨name, operation, value⟩] subject table).result
      (compileFilters ctx [⟨name ++ "." ++ code, operation, value⟩] subject table).result) ∧
    ∀ (mode : SortMode) (direction : Direction), SameButName name (name ++ "." ++ code)
      (compileSorts (ctx.inLanguage code) mode [⟨name, direction⟩] subject table).result
      (compileSorts ctx mode [⟨name ++ "." ++ code, direction⟩] subject table).result := by
  obtain ⟨named, free⟩ := Path.dotless_of_isSegment segment
  have describedIn : (ctx.inLanguage code).schemaOf subject = .ok schema := described
  constructor
  · intro operation value
    rw [result_compileFilters_singleton describedIn, result_compileFilters_singleton described]
    simp only [Filter.path, Path.ofText_append free]
    exact (sameButName_narrow single named name _ operation value ends _ rfl).map _
  · intro mode direction
    rw [result_compileSorts_singleton describedIn, result_compileSorts_singleton described]
    exact (sameButName_sortTerm single named free mode ends _ direction).map _

namespace Books

def periodical : Schema :=
  { entity := "Periodical", table := "periodical"
    fields := [{ name := "Issues", column := "Issues", relation := .manyToMany, target := some "Pamphlet"
                 targetTable := some "pamphlet", manyToMany := some "periodical_pamphlet" }] }

/-- Periodicals, whose issues are pamphlets, in all languages. -/
def subscribing : Context :=
  { printing with
    language := some "all"
    schemaOf := fun
      | .entity "Periodical" => .ok periodical
      | subject => printing.schemaOf subject }

end Books

/-- The headlines of the issues in Turkish, asked for in all languages. -/
theorem compile_language_segment_periodicals :
    ∃ filters sorts,
      (compileFilters (Books.subscribing.inLanguage "tr-TR") [⟨"Issues.Headline", .oneOf, "a|b"⟩] (.entity "Periodical")
        none).result = .ok filters ∧
      (compileFilters Books.subscribing [⟨"Issues.Headline.tr-TR", .oneOf, "a|b"⟩] (.entity "Periodical") none).result =
        .ok filters ∧
      filters.args = [.str "a", .str "b"] ∧
      (compileSorts (Books.subscribing.inLanguage "tr-TR") { strict := false } [⟨"Issues.Headline", .descending⟩]
        (.entity "Periodical") none).result = .ok sorts ∧
      (compileSorts Books.subscribing { strict := false } [⟨"Issues.Headline.tr-TR", .descending⟩]
        (.entity "Periodical") none).result = .ok sorts ∧
      sorts.joins.length = 1 := by
  have described : Books.subscribing.schemaOf (.entity "Periodical") = .ok Books.periodical := rfl
  have ends : EndsTranslated Books.subscribing Books.periodical (Path.ofText "Issues.Headline").head
      (Path.ofText "Issues.Headline").rest := .behind rfl rfl rfl (.column rfl rfl rfl)
  have segment : Filter.isSegment "tr-TR" = true := by decide
  have alike := compile_language_segment described ends segment (by decide) none
  obtain ⟨filters, narrowed, values⟩ : ∃ filters, (compileFilters (Books.subscribing.inLanguage "tr-TR")
      [⟨"Issues.Headline", .oneOf, "a|b"⟩] (.entity "Periodical") none).result = .ok filters ∧
      filters.args = [.str "a", .str "b"] := ⟨_, rfl, rfl⟩
  obtain ⟨sorts, sorted, one⟩ : ∃ sorts, (compileSorts (Books.subscribing.inLanguage "tr-TR") { strict := false }
      [⟨"Issues.Headline", .descending⟩] (.entity "Periodical") none).result = .ok sorts ∧ sorts.joins.length = 1 :=
    ⟨_, rfl, rfl⟩
  exact ⟨filters, sorts, narrowed, (alike.1 .oneOf "a|b").eq_ok narrowed, values, sorted,
    (alike.2 { strict := false } .descending).eq_ok sorted, one⟩

end Compile

end RowQuery
