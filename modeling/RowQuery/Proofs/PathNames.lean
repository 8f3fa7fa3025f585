import RowQuery.Proofs.FilterPrinting
import RowQuery.Proofs.ListedPaths

/-!
# Names in the paths of filters

The segments of a filter's path are names, except that each but the last may have a newline behind it: the check of a
segment passes over a newline at its end, and only the whole path is trimmed. What is left of a path at a JSON column
is written as a literal, `$` and the segments with dots between them, so the newline stands in the literal as well.
-/

namespace RowQuery.Text

/-- The control characters of ASCII and of the block behind it. -/
def isControl (c : Char) : Bool := c.toNat < 0x20 || (0x7F ≤ c.toNat && c.toNat < 0xA0)

/-- A text with neither blanks nor control characters. -/
def Clean (s : String) : Prop := ∀ c ∈ s.toList, isBlank c = false ∧ isControl c = false

instance (s : String) : Decidable (Clean s) :=
  inferInstanceAs (Decidable (∀ c ∈ s.toList, isBlank c = false ∧ isControl c = false))

end RowQuery.Text

namespace RowQuery.Path

open RowQuery.Text

/-! ## Segments -/

/-- An ASCII letter or an underscore, followed by ASCII letters, digits, underscores and hyphens. -/
def IsName (segment : String) : Prop :=
  ∃ c cs, segment.toList = c :: cs ∧ (c.isAlpha = true ∨ c = '_') ∧
    ∀ d ∈ cs, d.isAlphanum = true ∨ d = '_' ∨ d = '-'

theorem isSegmentChar_of_isName {segment : String} (name : IsName segment) :
    ∀ c ∈ segment.toList, Filter.isSegmentChar c = true := by
  obtain ⟨first, rest, chars, start, goesOn⟩ := name
  intro c member
  rw [chars] at member
  rcases List.mem_cons.mp member with rfl | inside
  · rcases start with letter | rfl
    · simp [Filter.isSegmentChar, Char.isAlphanum, letter]
    · rfl
  · simpa [Filter.isSegmentChar, or_assoc] using goesOn c inside

/-- The characters of names are neither blank nor control characters, and no literal escapes them. -/
theorem plain_of_isSegmentChar {c : Char} (inName : Filter.isSegmentChar c = true) :
    isBlank c = false ∧ isControl c = false ∧ c ≠ '\'' ∧ c ≠ '\\' := by
  have codes : (65 ≤ c.toNat ∧ c.toNat ≤ 90) ∨ (97 ≤ c.toNat ∧ c.toNat ≤ 122) ∨ (48 ≤ c.toNat ∧ c.toNat ≤ 57) ∨
      c.toNat = 95 ∨ c.toNat = 45 := by
    change (((decide (c.val ≥ 'A'.val ∧ c.val ≤ 'Z'.val) || (decide (c.val ≥ 'a'.val) && decide (c.val ≤ 'z'.val))) ||
      (decide (c.val ≥ '0'.val) && decide (c.val ≤ '9'.val))) || c == '_' || c == '-') = true at inName
    simp only [Bool.or_eq_true, Bool.and_eq_true, decide_eq_true_eq, beq_iff_eq, UInt32.le_iff_toNat_le,
      ge_iff_le] at inName
    rcases inName with (((upper | lower) | digit) | rfl) | rfl
    · exact .inl upper
    · exact .inr (.inl lower)
    · exact .inr (.inr (.inl digit))
    · decide
    · decide
  refine ⟨?_, ?_, ?_, ?_⟩
  · simp only [isBlank, Bool.or_eq_false_iff, Bool.and_eq_false_iff, decide_eq_false_iff_not, beq_eq_false_iff_ne]
    omega
  · simp only [isControl, Bool.or_eq_false_iff, Bool.and_eq_false_iff, decide_eq_false_iff_not]
    omega
  · rintro rfl
    revert codes
    decide
  · rintro rfl
    revert codes
    decide

theorem not_newline_mem_of_isName {segment : String} (name : IsName segment) : '\n' ∉ segment.toList := by
  intro member
  have inName := isSegmentChar_of_isName name _ member
  revert inName
  decide

theorem isSegment_iff_drop (segment : String) :
    Filter.isSegment segment = true ↔ IsName (String.ofList (Filter.dropFinalNewline segment.toList)) := by
  unfold Filter.isSegment IsName
  rw [String.toList_ofList]
  cases Filter.dropFinalNewline segment.toList with
  | nil => simp
  | cons c cs => simp [Filter.isSegmentStart, Filter.isSegmentChar, or_assoc]

/-- A segment that passes the check is a name, or a name with a newline behind it. -/
theorem isSegment_iff (segment : String) :
    Filter.isSegment segment = true ↔ IsName segment ∨ ∃ name, IsName name ∧ segment = name ++ "\n" := by
  rw [isSegment_iff_drop, Filter.dropFinalNewline]
  by_cases newline : segment.toList.getLast? = some '\n'
  · rw [if_pos newline]
    have parts : segment = String.ofList segment.toList.dropLast ++ "\n" := by
      apply String.toList_inj.mp
      simpa using (List.dropLast_append_getLast? _ newline).symm
    constructor
    · intro name
      exact .inr ⟨_, name, parts⟩
    · rintro (name | ⟨name, isName, same⟩)
      · exact absurd (List.mem_of_getLast? newline) (not_newline_mem_of_isName name)
      · have chars : segment.toList.dropLast = name.toList := by simp [same]
        rwa [chars, String.ofList_toList]
  · rw [if_neg newline, String.ofList_toList]
    constructor
    · exact .inl
    · rintro (name | ⟨name, -, same⟩)
      · exact name
      · exact absurd (by simp [same]) newline

/-! ## Dotted texts -/

theorem toList_dotted (segments : List String) :
    (dotted segments).toList = ['.'].intercalate (segments.map String.toList) := String.toList_intercalate ..

theorem mem_dotted_of_mem {segments : List String} {segment : String} {c : Char} (member : segment ∈ segments)
    (inside : c ∈ segment.toList) : c ∈ (dotted segments).toList := by
  rw [toList_dotted]
  exact mem_intercalate_of_mem _ (List.mem_map_of_mem member) inside

theorem mem_of_mem_dotted {segments : List String} {c : Char} (member : c ∈ (dotted segments).toList) :
    c = '.' ∨ ∃ segment ∈ segments, c ∈ segment.toList := by
  rw [toList_dotted] at member
  rcases mem_of_mem_intercalate member with dot | ⟨chars, inSegments, inside⟩
  · exact .inl (List.mem_singleton.mp dot)
  · obtain ⟨segment, among, rfl⟩ := List.mem_map.mp inSegments
    exact .inr ⟨segment, among, inside⟩

/-- A dotted text ends as its last segment does. -/
theorem getLast?_dotted (before : List String) {last : String} (some : last ≠ "") :
    (dotted (before ++ [last])).toList.getLast? = last.toList.getLast? := by
  have chars : last.toList ≠ [] := by simpa using some
  by_cases none : before = []
  · simp [none, dotted]
  · rw [Compile.dotted_concat none, String.toList_append, List.getLast?_append_of_ne_nil _ chars]

end RowQuery.Path

namespace RowQuery.Filter

open RowQuery.Text RowQuery.Path

theorem Readable.isName_or_newline {f : Filter} (readable : f.Readable) {segment : String}
    (member : segment ∈ f.path.segments) : IsName segment ∨ ∃ name, IsName name ∧ segment = name ++ "\n" :=
  (isSegment_iff segment).mp (List.all_eq_true.mp readable.accepted segment member)

/-- The segments of a filter that was read are names, each but the last perhaps with a newline behind it. -/
theorem Readable.segments {f : Filter} (readable : f.Readable) :
    ∃ before last, f.path.segments = before ++ [last] ∧ IsName last ∧
      ∀ segment ∈ before, IsName segment ∨ ∃ name, IsName name ∧ segment = name ++ "\n" := by
  obtain ⟨before, last, parts⟩ := (List.eq_nil_or_concat' f.path.segments).resolve_left (by simp [Path.segments])
  refine ⟨before, last, parts, ?_, fun segment member => readable.isName_or_newline (by rw [parts]; simp [member])⟩
  rcases readable.isName_or_newline (show last ∈ f.path.segments by rw [parts]; simp) with name | ⟨name, -, newline⟩
  · exact name
  · -- The newline would be at the end of the whole name, which is trimmed.
    have ends : f.name.toList.getLast? = some '\n' := by
      rw [← dotted_segments f.name, ← path, parts, getLast?_dotted before (by simp [newline]), newline]
      simp
    rw [← readable.name] at ends
    exact absurd (isBlank_of_trimChars ends) (by decide)

/-- All segments are names exactly if there is no newline in the path. -/
theorem Readable.forall_isName_iff {f : Filter} (readable : f.Readable) :
    (∀ segment ∈ f.path.segments, IsName segment) ↔ '\n' ∉ f.name.toList := by
  constructor
  · intro names newline
    rw [← dotted_segments f.name] at newline
    rcases mem_of_mem_dotted newline with dot | ⟨segment, member, inside⟩
    · exact absurd dot (by decide)
    · exact not_newline_mem_of_isName (names segment member) inside
  · intro noNewline segment member
    rcases readable.isName_or_newline member with name | ⟨name, -, same⟩
    · exact name
    · refine absurd ?_ noNewline
      rw [← dotted_segments f.name]
      exact mem_dotted_of_mem member (by simp [same])

end RowQuery.Filter

namespace RowQuery.Sql

/-! ## Paths into JSON columns -/

/-- The path that a token is, if it is a literal behind an arrow. -/
@[simp] def Token.jsonPath (before : Token) : Token → List String
  | .literal path => if before = .symbol "->" then [path] else []
  | _ => []

/-- The literals behind arrows, where the first token stands behind `before`. -/
@[simp] def Token.jsonPathsBehind : Token → List Token → List String
  | _, [] => []
  | before, t :: ts => jsonPath before t ++ jsonPathsBehind t ts

/-- The paths into JSON columns that some tokens write: the literals behind arrows. -/
def Token.jsonPaths (ts : List Token) : List String := jsonPathsBehind .space ts

/-- The keys that a condition follows inside JSON columns. -/
@[simp] def Predicate.jsonKeys : Predicate → List String
  | .test (.jsonText _ keys) _ => [keys]
  | .test (.column _) _ | .test (.language _ _) _ => []
  | .anyLanguage _ _ _ | .sameColumn _ _ | .hasText _ _ => []
  | .and p q | .or p q => p.jsonKeys ++ q.jsonKeys
  | .group p | .inSelect _ _ _ p => p.jsonKeys

namespace Token

@[simp] theorem jsonPathsBehind_append (before : Token) (ts us : List Token) :
    jsonPathsBehind before (ts ++ us) = jsonPathsBehind before ts ++ jsonPathsBehind (ts.getLastD before) us := by
  induction ts generalizing before with
  | nil => rfl
  | cons t ts ih =>
    rw [List.cons_append, jsonPathsBehind, jsonPathsBehind, ih, List.append_assoc, List.getLastD_cons]

theorem jsonPathsBehind_of_no_literal {before : Token} {ts : List Token} (none : ∀ path, .literal path ∉ ts) :
    jsonPathsBehind before ts = [] := by
  induction ts generalizing before with
  | nil => rfl
  | cons t ts ih =>
    rw [jsonPathsBehind, ih fun path member => none path (List.mem_cons_of_mem _ member)]
    cases t with
    | literal path => exact absurd List.mem_cons_self (none path)
    | word | space | symbol | name | placeholder => rfl

end Token

section Predicate

variable (d : Dialect) (before : Token)

open Token

@[simp] theorem jsonPathsBehind_column (c : Column) : jsonPathsBehind before (c.tokens d) = [] := by
  apply jsonPathsBehind_of_no_literal
  intro path
  cases table : c.table <;> cases bare : c.bare <;> simp [Column.tokens, table, bare]

theorem not_literal_mem_placeholders (values : List Value) (path : String) :
    .literal path ∉ (values.map fun _ => Token.placeholder).intersperse (.symbol ",") := by
  induction values with
  | nil => simp
  | cons v values ih =>
    cases values with
    | nil => simp
    | cons w values => simpa [List.intersperse_cons_cons] using ih

@[simp] theorem jsonPathsBehind_test (t : Test) : jsonPathsBehind before t.tokens = [] := by
  apply jsonPathsBehind_of_no_literal
  intro path
  cases t with
  | compare op value => cases op <;> simp [Test.tokens, Comparison.token]
  | isNull | isNotNull => simp [Test.tokens, Token.words]
  | oneOf values => simpa [Test.tokens, Token.bracketed] using not_literal_mem_placeholders values path

/-- The paths that the tokens of a condition write are those of its keys. -/
theorem jsonPathsBehind_predicate (p : Predicate) :
    jsonPathsBehind before (p.tokens d) = p.jsonKeys.map keyPath := by
  induction p generalizing before with
  | test lhs t =>
    cases lhs <;> simp [Predicate.tokens, Expr.tokens, jsonTextTokens, languageTokens, Token.spaced, Token.comma]
  | anyLanguage c found pattern => cases found <;> simp [Predicate.tokens, Token.words, Token.comma]
  | sameColumn a b => simp [Predicate.tokens, Token.spacedSymbol]
  | hasText c value => simp [Predicate.tokens, Token.spacedSymbol]
  | and p q first second => simp [Predicate.tokens, connectTokens, Token.spaced, first, second]
  | or p q first second => simp [Predicate.tokens, connectTokens, Token.spaced, first, second]
  | group p ih => simp [Predicate.tokens, Token.bracketedSpaced, ih]
  | inSelect lhs selected source p ih =>
    simp [Predicate.tokens, inSelectTokens, Token.spaced, Token.bracketedSpaced, ih]

end Predicate

end RowQuery.Sql

namespace RowQuery.Compile

open RowQuery.Text RowQuery.Path RowQuery.Schema RowQuery.Sql RowQuery.Sql.Token

/-! ## The paths that filters write -/

theorem jsonKeys_anyOf {p : Predicate} {ps : List Predicate} (first : p.jsonKeys = [])
    (others : ∀ q ∈ ps, q.jsonKeys = []) : (Predicate.anyOf p ps).jsonKeys = [] := by
  induction ps generalizing p with
  | nil => exact first
  | cons q ps ih =>
    rw [Predicate.anyOf, Predicate.jsonKeys, first,
      ih (others q List.mem_cons_self) fun r member => others r (List.mem_cons_of_mem _ member), List.append_nil]

/-- A condition on a column follows no keys. -/
theorem LeafCondition.jsonKeys_eq_nil {ctx : Context} {flt : Filter} {f : Field} {table : Option String} {p : Predicate}
    (leaf : LeafCondition ctx flt f table p) : p.jsonKeys = [] := by
  cases leaf with
  | tested single expr test => rcases expr_cases expr with rfl | ⟨code, -, -, -, rfl⟩ <;> rfl
  | isNull | isNotNull | like | equal | notEqual => rfl
  | oneOf across list values =>
    rw [Predicate.jsonKeys]
    exact jsonKeys_anyOf rfl (by simp)

/-- The frames of a relation follow no keys of their own. -/
theorem Framed.jsonKeys_nest {settings : Settings} {f : Field} {outer related : String} {frames : List Frame}
    (framed : Framed settings f outer related frames) (p : Predicate) :
    (Frame.nest frames p).jsonKeys = p.jsonKeys := by
  cases framed with
  | direct => rfl
  | pivot => rfl
  | polymorphic => simp [polymorphicFrames, Frame.nest, Frame.fill]

/-- What is left of a filter's path at a JSON column are the keys that its condition follows. -/
theorem Narrowed.jsonKeys {ctx : Context} {flt : Filter} {rest : List String} {head : String} {site : Site}
    {n : Narrowing} (walk : Narrowed ctx flt rest head site n) :
    ∀ keys ∈ n.condition.jsonKeys, ∃ inner, inner ≠ [] ∧ inner <:+ rest ∧ keys = dotted inner := by
  induction walk with
  | leaf _ _ _ condition =>
    rw [(leafCondition_eq_ok condition).jsonKeys_eq_nil]
    simp
  | @inner next _ more _ f _ _ _ _ _ expr _ =>
    rw [innerExpr_eq_ok expr]
    cases f.isJson with
    | true =>
      intro keys member
      exact ⟨next :: more, by simp, List.suffix_refl _, by simpa using member⟩
    | false => simp
  | joined _ _ _ _ _ _ ih =>
    intro keys member
    obtain ⟨inner, some, suffix, same⟩ := ih keys member
    exact ⟨inner, some, suffix.trans (List.suffix_cons _ _), same⟩
  | nested _ _ _ _ _ _ framed ih =>
    intro keys member
    rw [(framed_of_relationFrames framed).jsonKeys_nest] at member
    obtain ⟨inner, some, suffix, same⟩ := ih keys member
    exact ⟨inner, some, suffix.trans (List.suffix_cons _ _), same⟩

/-- A path into a JSON column that leads on from a filter's path: a literal with no escapes in it, `$` and the segments
    that are left, with dots between them. Its only blanks and control characters are those of segments that are
    not names. -/
def LeadsOn (f : Filter) (path : String) : Prop :=
  ∃ inner, inner ≠ [] ∧ inner <:+ f.path.rest ∧ path = dotted ("$" :: inner) ∧
    quoteLiteral path = "'" ++ path ++ "'" ∧ (Clean path ↔ ∀ segment ∈ inner, IsName segment)

theorem keyPath_dotted {inner : List String} (some : inner ≠ []) : keyPath (dotted inner) = dotted ("$" :: inner) := by
  cases inner with
  | nil => exact absurd rfl some
  | cons first others => rw [dotted, dotted, String.intercalate_cons_cons]; rfl

theorem quoteLiteral_of_plain {s : String} (plain : ∀ c ∈ s.toList, c ≠ '\'' ∧ c ≠ '\\') :
    quoteLiteral s = "'" ++ s ++ "'" := by
  have chars : s.toList.flatMap literalChar = s.toList := by
    have each : ∀ c ∈ s.toList, literalChar c = [c] := by
      intro c member
      simp [literalChar, plain c member]
    rw [List.flatMap_congr each, List.flatMap_singleton']
  apply String.toList_inj.mp
  simp [quoteLiteral, chars]

theorem mem_of_mem_dotted_root {inner : List String} {c : Char} (member : c ∈ (dotted ("$" :: inner)).toList) :
    c = '.' ∨ c = '$' ∨ ∃ segment ∈ inner, c ∈ segment.toList := by
  rcases mem_of_mem_dotted member with dot | ⟨segment, among, inside⟩
  · exact .inl dot
  · rcases List.mem_cons.mp among with rfl | later
    · exact .inr (.inl (by simpa using inside))
    · exact .inr (.inr ⟨segment, later, inside⟩)

theorem leadsOn_of_suffix {f : Filter} (readable : f.Readable) {inner : List String} (some : inner ≠ [])
    (suffix : inner <:+ f.path.rest) : LeadsOn f (keyPath (dotted inner)) := by
  have each : ∀ segment ∈ inner, IsName segment ∨ ∃ name, IsName name ∧ segment = name ++ "\n" := by
    intro segment inside
    exact readable.isName_or_newline (List.mem_cons_of_mem _ (suffix.mem inside))
  rw [keyPath_dotted some]
  refine ⟨inner, some, suffix, rfl, ?_, ?_, ?_⟩
  · apply quoteLiteral_of_plain
    intro c member
    rcases mem_of_mem_dotted_root member with rfl | rfl | ⟨segment, among, inside⟩
    · decide
    · decide
    · rcases each segment among with name | ⟨name, isName, rfl⟩
      · exact (plain_of_isSegmentChar (isSegmentChar_of_isName name c inside)).2.2
      · have inside : c ∈ name.toList ∨ c = '\n' := by simpa using inside
        rcases inside with inName | rfl
        · exact (plain_of_isSegmentChar (isSegmentChar_of_isName isName c inName)).2.2
        · decide
  · intro clean segment among
    rcases each segment among with name | ⟨name, -, same⟩
    · exact name
    · have newline := mem_dotted_of_mem (List.mem_cons_of_mem "$" among) (show '\n' ∈ segment.toList by simp [same])
      exact absurd (clean _ newline).1 (by decide)
  · intro names c member
    rcases mem_of_mem_dotted_root member with rfl | rfl | ⟨segment, among, inside⟩
    · decide
    · decide
    · have plain := plain_of_isSegmentChar (isSegmentChar_of_isName (names segment among) c inside)
      exact ⟨plain.1, plain.2.1⟩

/-- The segments of the path of a filter that was read are names, if there is no newline in the path. Each but the
    last may have one behind it. What is left of the path at a JSON column is written as it stands, so the literals
    that the filter's condition has for paths into JSON columns have neither blanks nor control characters if the
    segments that are left are names. -/
theorem leadsOn_of_parse {s : String} {f : Filter} (parsed : Filter.parse s = .ok f) :
    (∃ before last, f.path.segments = before ++ [last] ∧ IsName last ∧
      ∀ segment ∈ before, IsName segment ∨ ∃ name, IsName name ∧ segment = name ++ "\n") ∧
    ((∀ segment ∈ f.path.segments, IsName segment) ↔ '\n' ∉ f.name.toList) ∧
    ∀ ctx filters subject table part, (compileFilters ctx filters subject table).result = .ok part →
      ∀ condition, (f, condition) ∈ filters.zip part.conditions →
        ∀ path ∈ jsonPaths (condition.tokens ctx.style), LeadsOn f path := by
  have readable := Filter.readable_of_written (Filter.parse_eq_ok.mp parsed)
  refine ⟨readable.segments, readable.forall_isName_iff, ?_⟩
  intro ctx filters subject table part ok condition pair path member
  obtain ⟨schema, found, -, walked, rfl⟩ := compileFilters_eq_ok.mp ok
  rw [List.zip_map_right] at pair
  obtain ⟨⟨flt, n⟩, among, same⟩ := List.mem_map.mp pair
  cases same
  have walk := narrowed_of_narrow (List.forall₂_zip walked among)
  rw [jsonPaths, jsonPathsBehind_predicate] at member
  obtain ⟨keys, inKeys, rfl⟩ := List.mem_map.mp member
  obtain ⟨inner, some, suffix, rfl⟩ := walk.jsonKeys keys inKeys
  exact leadsOn_of_suffix readable some suffix

theorem leadsOn_of_parse_pamphlets :
    ∃ f part condition, Filter.parse " Meta.size.x-1 >= 2 " = .ok f ∧
      (compileFilters Books.printing [f] (.entity "Pamphlet") none).result = .ok part ∧
      part.conditions = [condition] ∧
      jsonPaths (condition.tokens Books.printing.style) = ["$.size.x-1"] ∧ LeadsOn f "$.size.x-1" ∧
      ∀ segment ∈ f.path.segments, IsName segment := by
  obtain ⟨f, part, condition, parsed, ok, single, paths, plain⟩ : ∃ f part condition,
      Filter.parse " Meta.size.x-1 >= 2 " = .ok f ∧
      (compileFilters Books.printing [f] (.entity "Pamphlet") none).result = .ok part ∧
      part.conditions = [condition] ∧ jsonPaths (condition.tokens Books.printing.style) = ["$.size.x-1"] ∧
      '\n' ∉ f.name.toList := ⟨_, _, _, rfl, rfl, rfl, rfl, by decide⟩
  have ⟨_, names, leads⟩ := leadsOn_of_parse parsed
  refine ⟨f, part, condition, parsed, ok, single, paths, ?_, names.mpr plain⟩
  exact leads _ _ _ _ part ok condition (by simp [single]) _ (by simp [paths])

/-- A newline before a dot is taken for a part of the segment, and it comes into the literal. -/
theorem not_clean_of_parse :
    Filter.parse "Meta.a\n.b=1" = .ok ⟨"Meta.a\n.b", .equal, "1"⟩ ∧
    (Path.ofText "Meta.a\n.b").segments = ["Meta", "a\n", "b"] ∧ ¬ IsName "a\n" ∧
    ∃ part condition,
      (compileFilters Books.printing [⟨"Meta.a\n.b", .equal, "1"⟩] (.entity "Pamphlet") none).result = .ok part ∧
      part.conditions = [condition] ∧
      condition.text Books.printing.style = "CAST(\x60pamphlet\x60.\x60meta\x60->'$.a\n.b' AS CHAR) = ?" ∧
      jsonPaths (condition.tokens Books.printing.style) = ["$.a\n.b"] ∧ ¬ Clean "$.a\n.b" := by
  refine ⟨by decide, by decide, fun name => ?_, _, _, rfl, rfl, by decide, by decide, fun clean => ?_⟩
  · exact not_newline_mem_of_isName name (by decide)
  · exact absurd (clean '\n' (by decide)).1 (by decide)

end RowQuery.Compile
