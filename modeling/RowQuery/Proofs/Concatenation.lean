import RowQuery.Proofs.Dialects
import RowQuery.Proofs.OwnerRestriction

/-!
# Filters and sorts one after the other

Filters are compiled one by one, and so are sorts: what a list of them is compiled to is made up of what any two
parts of it are compiled to. Conditions and order terms are put one behind the other. Registered paths and joins are
merged, so that what the second part shares with the first is not there twice. A sort that no field matches, where
sorts are lenient, is there by its name alone, however far its path leads before it fails.
-/

namespace RowQuery.Text

/-! ## Merging -/

/-- The merge of two lists: the first, and behind it what the second has beside it, with nothing twice. -/
structure Merge {α : Type} [DecidableEq α] (xs ys zs : List α) : Prop where
  items : zs = xs ++ ys.filter (· ∉ xs)
  nodup : zs.Nodup

section Merging

variable {α : Type} [DecidableEq α]

theorem mergeNew_append (seen xs ys : List α) : mergeNew seen (xs ++ ys) = mergeNew (mergeNew seen xs) ys :=
  List.foldl_append

theorem mergeNew_concat (seen xs : List α) (x : α) : mergeNew seen (xs ++ [x]) =
    if x ∈ mergeNew seen xs then mergeNew seen xs else mergeNew seen xs ++ [x] :=
  mergeNew_append seen xs [x]

/-- What is merged into a list stands behind it as it is merged into none. -/
theorem mergeNew_eq_append (seen xs : List α) :
    mergeNew seen xs = seen ++ (mergeNew [] xs).filter (· ∉ seen) := by
  induction xs using List.reverseRecOn with
  | nil => simp [mergeNew]
  | append_singleton xs x ih =>
    rw [mergeNew_concat, mergeNew_concat]
    by_cases old : x ∈ seen <;> by_cases again : x ∈ xs <;> simp [mem_mergeNew, old, again, ih]

/-- What is merged from two lists is the merge of what is merged from each. -/
theorem merge_mergeNew (xs ys : List α) :
    Merge (mergeNew [] xs) (mergeNew [] ys) (mergeNew [] (xs ++ ys)) where
  items := by rw [mergeNew_append, mergeNew_eq_append]
  nodup := nodup_mergeNew List.nodup_nil _

/-- Merges are kept by what tells their items apart. -/
theorem Merge.map {β : Type} [DecidableEq β] {f : α → β} {xs ys zs : List α} (merge : Merge xs ys zs)
    (apart : ∀ x ∈ xs ++ ys, ∀ y ∈ xs ++ ys, f x = f y → x = y) :
    Merge (xs.map f) (ys.map f) (zs.map f) := by
  have inside : ∀ {z}, z ∈ zs → z ∈ xs ++ ys := by
    intro z member
    rw [merge.items, List.mem_append] at member
    exact List.mem_append.mpr (member.imp_right List.mem_of_mem_filter)
  have new : ∀ y ∈ ys, f y ∈ xs.map f ↔ y ∈ xs := by
    intro y member
    refine ⟨fun same => ?_, List.mem_map_of_mem⟩
    obtain ⟨x, old, equal⟩ := List.mem_map.mp same
    rw [← apart x (by simp [old]) y (by simp [member]) equal]
    exact old
  refine ⟨?_, ?_⟩
  · rw [merge.items, List.map_append, List.filter_map]
    congr 2
    exact List.filter_congr fun y member => by simp only [Function.comp_apply, new y member]
  · exact List.Nodup.map_on (fun x member y member' => apart x (inside member) y (inside member')) merge.nodup

end Merging

/-! ## Joining texts -/

theorem intercalate_flatten {between : String} {groups : List (List String)} (some : ∀ g ∈ groups, g ≠ []) :
    between.intercalate groups.flatten = between.intercalate (groups.map between.intercalate) := by
  induction groups with
  | nil => rfl
  | cons g gs ih =>
    have rest := ih fun h member => some h (by simp [member])
    cases gs with
    | nil => simp
    | cons h hs =>
      have further : (h :: hs).flatten ≠ [] := by simp [some h (by simp)]
      rw [List.flatten_cons, String.intercalate_append_of_ne_nil (some g (by simp)) further, rest,
        List.map_cons (l := h :: hs), String.intercalate_cons_of_ne_nil (by simp)]

theorem intercalate_eq_empty {between : String} {texts : List String} (some : ∀ t ∈ texts, t ≠ "") :
    between.intercalate texts = "" ↔ texts = [] := by
  cases texts with
  | nil => simp
  | cons t ts =>
    have first : t ≠ "" := some t (by simp)
    cases ts with
    | nil => simp [first]
    | cons u us => simp [String.intercalate_cons_cons, first]

/-- Texts that are joined in groups, and then group by group, are joined as they are at once. -/
theorem joinNonEmpty_flatten (between : String) (groups : List (List String)) :
    joinNonEmpty between groups.flatten = joinNonEmpty between (groups.map (joinNonEmpty between)) := by
  let filled := (groups.map fun g => g.filter (· != "")).filter fun g => !g.isEmpty
  have some : ∀ g ∈ filled, g ≠ [] := by
    intro g member
    simpa using List.of_mem_filter member
  have texts : (groups.map (joinNonEmpty between)).filter (· != "") = filled.map between.intercalate := by
    simp only [filled, List.filter_map, List.map_map]
    have empty : ∀ g ∈ groups, ((· != "") ∘ joinNonEmpty between) g =
        ((fun g => !g.isEmpty) ∘ fun g : List String => g.filter (· != "")) g := by
      intro g _
      have iff : joinNonEmpty between g = "" ↔ g.filter (· != "") = [] :=
        intercalate_eq_empty fun t member => by simpa using List.of_mem_filter member
      rw [Bool.eq_iff_iff]
      simpa using not_congr iff
    rw [List.filter_congr empty]
    rfl
  calc joinNonEmpty between groups.flatten
      = between.intercalate filled.flatten := by
        rw [joinNonEmpty, List.filter_flatten, List.flatten_filter_not_isEmpty]
    _ = between.intercalate (filled.map between.intercalate) := intercalate_flatten some
    _ = joinNonEmpty between (groups.map (joinNonEmpty between)) := by rw [joinNonEmpty, texts]

theorem joinNonEmpty_append (between : String) (xs ys : List String) :
    joinNonEmpty between (xs ++ ys) = joinNonEmpty between [joinNonEmpty between xs, joinNonEmpty between ys] := by
  simpa using joinNonEmpty_flatten between [xs, ys]

end RowQuery.Text

namespace RowQuery.Sql

/-! ## Texts of conditions and orders -/

theorem print_ne_empty {ts : List Token} (space : .space ∈ ts) : Token.print ts ≠ "" := by
  obtain ⟨before, after, rfl⟩ := List.append_of_mem space
  intro empty
  have chars := congrArg String.toList empty
  simp [Token.print, Token.text] at chars

/-- Every condition is written with a space. -/
theorem Predicate.space_mem_tokens (d : Dialect) (p : Predicate) : .space ∈ p.tokens d := by
  cases p with
  | test lhs t => cases t <;> simp [tokens, Test.tokens]
  | anyLanguage | sameColumn | hasText | group | inSelect =>
    simp [tokens, Token.comma, Token.spacedSymbol, Token.bracketedSpaced, inSelectTokens, Token.spaced]
  | and | or => simp [tokens, connectTokens, Token.spaced]

theorem OrderTerm.space_mem_tokens (d : Dialect) (t : OrderTerm) : .space ∈ t.tokens d := by
  simp [tokens]

/-- Where nothing is written as an empty text, joining tokens is joining texts. -/
theorem print_joined_map {α : Type} (between : List Token) {write : α → List Token}
    (space : ∀ x, .space ∈ write x) (xs : List α) :
    Token.print (Token.joined between (xs.map write)) =
      Text.joinNonEmpty (Token.print between) (xs.map fun x => Token.print (write x)) := by
  have all : (xs.map fun x => Token.print (write x)).filter (· != "") = xs.map fun x => Token.print (write x) := by
    rw [List.filter_eq_self]
    intro text member
    obtain ⟨x, _, rfl⟩ := List.mem_map.mp member
    simpa using print_ne_empty (space x)
  rw [print_joined, Text.joinNonEmpty, all, List.map_map]
  rfl

end RowQuery.Sql

namespace RowQuery.Compile

open RowQuery.Schema RowQuery.Sql RowQuery.Join

theorem FilterPart.text_eq (d : Dialect) (part : FilterPart) :
    part.text d = Text.joinNonEmpty " AND " (part.conditions.map (·.text d)) :=
  print_joined_map (Token.spaced "AND") (Predicate.space_mem_tokens d) part.conditions

theorem SortPart.text_eq (d : Dialect) (part : SortPart) :
    part.text d = Text.joinNonEmpty ", " (part.terms.map fun t => Token.print (t.tokens d)) :=
  print_joined_map Token.comma (OrderTerm.space_mem_tokens d) part.terms

/-! ## Two parts of a list -/

/-- What filters are compiled to, from what two parts of them are compiled to. -/
structure FilterPart.Concat (first second whole : FilterPart) : Prop where
  text : ∀ d, whole.text d = Text.joinNonEmpty " AND " [first.text d, second.text d]
  args : whole.args = first.args ++ second.args
  paths : Text.Merge first.paths second.paths whole.paths

/-- What sorts are compiled to, from what two parts of them are compiled to. -/
structure SortPart.Concat (first second whole : SortPart) : Prop where
  text : ∀ d, whole.text d = Text.joinNonEmpty ", " [first.text d, second.text d]
  joins : ∀ d, Text.Merge (first.joins.map (·.text d)) (second.joins.map (·.text d)) (whole.joins.map (·.text d))

/-- Three runs, the third of which is that of the first and then that of the second: it fails as the first of them
    that fails, and comes to what `R` says of their results. -/
inductive Composed {α : Type} (R : α → α → α → Prop) : Except Error α → Except Error α → Except Error α → Prop where
  | first (e : Error) (second : Except Error α) : Composed R (.error e) second (.error e)
  | second (a : α) (e : Error) : Composed R (.ok a) (.error e) (.error e)
  | done {a b c : α} (related : R a b c) : Composed R (.ok a) (.ok b) (.ok c)

/-- Runs that start alike. -/
theorem Composed.bind {α β : Type} {R : β → β → β → Prop} {x : Except Error α} {f g h : α → Except Error β}
    (rest : ∀ a, Composed R (f a) (g a) (h a)) : Composed R (x >>= f) (x >>= g) (x >>= h) := by
  cases x with
  | error e => exact .first e _
  | ok a => exact rest a

/-- Runs through two lists, and through the one behind the other. -/
theorem Composed.mapM {α β γ : Type} {f : α → Except Error β} {make : List β → γ} {R : γ → γ → γ → Prop}
    {xs ys : List α} (related : ∀ us vs, xs.mapM f = .ok us → ys.mapM f = .ok vs →
      R (make us) (make vs) (make (us ++ vs))) :
    Composed R (xs.mapM f >>= fun us => pure (make us)) (ys.mapM f >>= fun us => pure (make us))
      ((xs ++ ys).mapM f >>= fun us => pure (make us)) := by
  rw [List.mapM_append]
  cases first : xs.mapM f with
  | error e => exact .first e _
  | ok us =>
    cases second : ys.mapM f with
    | error e => exact .second _ e
    | ok vs => exact .done (related us vs first second)

/-- The joins of a sort's walk are on qualified columns with quotes. -/
theorem quoted_keyed {ctx : Context} {mode : SortMode} {name : String} {rest : List String} {head : String}
    {site : SortSite} {e : Expr} {joins : List JoinClause} (walk : Keyed ctx mode name rest head site e joins) :
    ∀ clause ∈ joins, ∀ j ∈ clause, j.Quoted := by
  induction walk with
  | leaf | inner => simp
  | joined shallow found relation target configured clause rest ih =>
    intro other member
    rcases Text.mem_mergeNew.mp member with own | behind
    · unfold sortClause at clause
      split at clause
      · cases clause
        cases own
      · obtain ⟨made, joined, rfl⟩ := map_eq_ok.mp clause
        cases List.mem_singleton.mp own
        exact (written_of_join "" joined).1.quoted
    · exact ih other behind

theorem quoted_sortTerm {ctx : Context} {mode : SortMode} {schema : Schema} {table : String} {sort : Sorting}
    {x : OrderTerm × List JoinClause} (ok : (sortTerm ctx mode schema table sort).result = .ok x) :
    ∀ clause ∈ x.2, ∀ j ∈ clause, j.Quoted := by
  rcases sortTerm_eq_ok ok with ⟨e, walk, _⟩ | ⟨_, _, _, rfl⟩
  · exact quoted_keyed walk
  · simp

theorem quoted_sortTerms {ctx : Context} {mode : SortMode} {schema : Schema} {table : String}
    {sorts : List Sorting} {found : List (OrderTerm × List JoinClause)}
    (ok : (sorts.mapM fun sort => (sortTerm ctx mode schema table sort).result) = .ok found) :
    ∀ clause ∈ Text.mergeNew [] (found.flatMap (·.2)), ∀ j ∈ clause, j.Quoted := by
  intro clause member
  rw [Text.mem_mergeNew, List.mem_flatMap] at member
  obtain ⟨x, inFound, inside⟩ := member.resolve_left (by simp)
  obtain ⟨sort, _, term⟩ := exists_left_of_forall₂ (mapM_eq_ok.mp ok) inFound
  exact quoted_sortTerm term clause inside

section Lists

variable (ctx : Context) (subject : Subject) (table : Option String)

/-- Filters are compiled part by part. -/
theorem composed_compileFilters (first second : List Filter) :
    Composed FilterPart.Concat (compileFilters ctx first subject table).result
      (compileFilters ctx second subject table).result (compileFilters ctx (first ++ second) subject table).result := by
  simp only [result_compileFilters]
  refine .bind fun schema => .mapM fun found further _ _ => ?_
  constructor
  case text =>
    intro d
    rw [FilterPart.text_eq, List.map_append, List.map_append, Text.joinNonEmpty_append]
    simp only [FilterPart.text_eq]
  case args => simp [FilterPart.args, argsOf]
  case paths =>
    rw [List.flatMap_append]
    exact Text.merge_mergeNew _ _

/-- Sorts are compiled part by part. -/
theorem composed_compileSorts (mode : SortMode) (first second : List Sorting) :
    Composed SortPart.Concat (compileSorts ctx mode first subject table).result
      (compileSorts ctx mode second subject table).result
      (compileSorts ctx mode (first ++ second) subject table).result := by
  simp only [result_compileSorts]
  refine .bind fun schema => .mapM fun found further made remade => ?_
  constructor
  case text =>
    intro d
    rw [SortPart.text_eq, List.map_append, List.map_append, Text.joinNonEmpty_append]
    simp only [SortPart.text_eq]
  case joins =>
    intro d
    rw [List.flatMap_append]
    refine (Text.merge_mergeNew _ _).map fun clause member clause' member' same => ?_
    rw [List.mem_append] at member member'
    exact JoinClause.eq_of_text_eq (member.elim (quoted_sortTerms made clause) (quoted_sortTerms remade clause))
      (member'.elim (quoted_sortTerms made clause') (quoted_sortTerms remade clause')) same

end Lists

/-! ## Sorts that no field matches -/

/-- Whether sorts are strict has no part in the walk along a path. -/
theorem result_sortKey_strict (ctx : Context) (strict : Bool) (joined : List String) (name : String)
    (rest : List String) (head : String) (site : SortSite) :
    (sortKey ctx { strict, joined } name rest head site).result =
      (sortKey ctx { strict := true, joined } name rest head site).result := by
  induction rest generalizing head site with
  | nil => rw [result_sortKey_nil, result_sortKey_nil]
  | cons next more ih =>
    rw [result_sortKey_cons, result_sortKey_cons]
    simp only [ih]
    rfl

/-- A sort that is refused for a field that is not found is, where sorts are lenient, compiled to its name and no
    joins, or refused as no plain name. -/
theorem sortTerm_of_unmatched {ctx : Context} {joined : List String} {schema : Schema} {table : String}
    {sort : Sorting} {entity field path : String}
    (unmatched : (sortTerm ctx { strict := true, joined } schema table sort).result =
      .error (.fieldNotFound entity field path)) :
    (sortTerm ctx { strict := false, joined } schema table sort).result =
      if isPlainName sort.name then .ok (⟨.verbatim sort.name, sort.direction⟩, [])
      else .error (.malformedSort sort.name) := by
  rw [result_sortTerm] at unmatched ⊢
  rw [result_sortKey_strict]
  generalize (sortKey ctx { strict := true, joined } sort.name _ _ _).result = outcome at unmatched ⊢
  cases outcome with
  | ok x => cases unmatched
  | error e =>
    cases e with
    | fieldNotFound => rfl
    | _ => cases unmatched

/-- Sorts are compiled if each of them is. -/
theorem compileSorts_of_terms {ctx : Context} {mode : SortMode} {subject : Subject} {table : Option String}
    {schema : Schema} (described : ctx.schemaOf subject = .ok schema) {sorts : List Sorting}
    {found : List (OrderTerm × List JoinClause)}
    (terms : List.Forall₂ (fun sort x => (sortTerm ctx mode schema (rootTable schema table) sort).result = .ok x)
      sorts found) :
    (compileSorts ctx mode sorts subject table).result =
      .ok ⟨found.map (·.1), Text.mergeNew [] (found.flatMap (·.2))⟩ := by
  rw [result_compileSorts, described]
  exact bind_eq_ok.mpr ⟨schema, rfl, bind_eq_ok.mpr ⟨found, mapM_eq_ok.mpr terms, rfl⟩⟩

/-- One sort is compiled by its walk alone. -/
theorem result_compileSorts_singleton {ctx : Context} {mode : SortMode} {subject : Subject} {table : Option String}
    {schema : Schema} (described : ctx.schemaOf subject = .ok schema) (x : Sorting) :
    (compileSorts ctx mode [x] subject table).result =
      (sortTerm ctx mode schema (rootTable schema table) x).result.map fun y => ⟨[y.1], Text.mergeNew [] y.2⟩ := by
  rw [result_compileSorts, described]
  cases own : (sortTerm ctx mode schema (rootTable schema table) x).result <;>
    simp [bind, Except.bind, pure, Except.pure, Except.map, own]

/-- A sort that no field matches adds its name to the order and nothing to the joins. -/
theorem compileSorts_of_unmatched {ctx : Context} {joined : List String} {subject : Subject} {table : Option String}
    {x : Sorting} {entity field path : String}
    (unmatched : (compileSorts ctx { strict := true, joined } [x] subject table).result =
      .error (.fieldNotFound entity field path)) {before after : List Sorting} {whole : SortPart}
    (ok : (compileSorts ctx { strict := false, joined } (before ++ x :: after) subject table).result = .ok whole) :
    ∃ first second others,
      (compileSorts ctx { strict := false, joined } before subject table).result = .ok first ∧
      (compileSorts ctx { strict := false, joined } after subject table).result = .ok second ∧
      (compileSorts ctx { strict := false, joined } (before ++ after) subject table).result = .ok others ∧
      (∀ d, whole.text d =
        Text.joinNonEmpty ", " [first.text d, x.name ++ " " ++ x.direction.name, second.text d]) ∧
      whole.joins = others.joins := by
  obtain ⟨schema, found, described, terms, rfl⟩ := compileSorts_eq_ok ok
  obtain ⟨us, vs, rfl, firsts, seconds⟩ := forall₂_append_left_iff.mp terms
  obtain ⟨term, ws, own, behind, rfl⟩ := List.forall₂_cons_left_iff.mp seconds
  have failed : (sortTerm ctx { strict := true, joined } schema (rootTable schema table) x).result =
      .error (.fieldNotFound entity field path) := by
    rw [result_compileSorts_singleton described] at unmatched
    generalize (sortTerm ctx { strict := true, joined } schema (rootTable schema table) x).result = own at unmatched
    cases own with
    | error e => exact congrArg _ (Except.error.inj unmatched)
    | ok y => cases unmatched
  have named : term = (⟨.verbatim x.name, x.direction⟩, []) := by
    rw [sortTerm_of_unmatched failed] at own
    split at own
    · exact (Except.ok.inj own).symm
    · cases own
  refine ⟨_, _, _, compileSorts_of_terms described firsts, compileSorts_of_terms described behind,
    compileSorts_of_terms described (List.rel_append firsts behind), fun d => ?_, by simp [named]⟩
  let own := x.name ++ " " ++ x.direction.name
  have text : Token.print (OrderTerm.tokens d ⟨.verbatim x.name, x.direction⟩) = own := by
    simp [OrderTerm.tokens, OrderKey.tokens, Token.print, Token.text, own, String.append_assoc]
  have alone : Text.joinNonEmpty ", " [own] = own := by
    have some : own ≠ "" := text ▸ print_ne_empty (OrderTerm.space_mem_tokens d _)
    simp [Text.joinNonEmpty, some]
  have joined := Text.joinNonEmpty_flatten ", " [us.map fun y => Token.print (y.1.tokens d), [own],
    ws.map fun y => Token.print (y.1.tokens d)]
  simp only [SortPart.text_eq, named, List.map_append, List.map_cons, List.map_map, text, Function.comp_def]
  change _ = Text.joinNonEmpty ", " [_, own, _]
  simpa [alone] using joined

/-- Filters and sorts are compiled part by part. A list of them is compiled exactly if both of its parts are, and fails
    as the first of them that fails. The texts of the parts are joined, an empty one being passed over; the values are
    put one behind the other; the registered paths and the joins are merged. Where sorts are lenient, one that no field
    matches has its name in the order, and the joins are those of the others. -/
theorem compile_concat (ctx : Context) (subject : Subject) (table : Option String) :
    (∀ first second : List Filter, Composed FilterPart.Concat (compileFilters ctx first subject table).result
      (compileFilters ctx second subject table).result (compileFilters ctx (first ++ second) subject table).result) ∧
    (∀ (mode : SortMode) (first second : List Sorting),
      Composed SortPart.Concat (compileSorts ctx mode first subject table).result
        (compileSorts ctx mode second subject table).result
        (compileSorts ctx mode (first ++ second) subject table).result) ∧
    ∀ (joined : List String) (x : Sorting) (entity field path : String),
      (compileSorts ctx { strict := true, joined } [x] subject table).result =
        .error (.fieldNotFound entity field path) →
      ∀ (before after : List Sorting) (whole : SortPart),
        (compileSorts ctx { strict := false, joined } (before ++ x :: after) subject table).result = .ok whole →
        ∃ first second others,
          (compileSorts ctx { strict := false, joined } before subject table).result = .ok first ∧
          (compileSorts ctx { strict := false, joined } after subject table).result = .ok second ∧
          (compileSorts ctx { strict := false, joined } (before ++ after) subject table).result = .ok others ∧
          (∀ d, whole.text d =
            Text.joinNonEmpty ", " [first.text d, x.name ++ " " ++ x.direction.name, second.text d]) ∧
          whole.joins = others.joins :=
  ⟨composed_compileFilters ctx subject table, composed_compileSorts ctx subject table,
    fun _ _ _ _ _ unmatched _ _ _ ok => compileSorts_of_unmatched unmatched ok⟩

/-- Authors have no age, so their join is left out, though the path of the sort leads to them. -/
theorem compile_concat_books :
    (compileSorts Books.context { strict := true } [⟨"Author.Age", .ascending⟩] (.entity "Book") none).result =
      .error (.fieldNotFound "Author" "Age" "Author.Age") ∧
    ∃ whole others, (compileSorts Books.context { strict := false }
        ([⟨"Notes.Stars", .descending⟩] ++ ⟨"Author.Age", .ascending⟩ :: [⟨"Notes.Body", .ascending⟩])
        (.entity "Book") none).result = .ok whole ∧
      (compileSorts Books.context { strict := false } ([⟨"Notes.Stars", .descending⟩] ++ [⟨"Notes.Body", .ascending⟩])
        (.entity "Book") none).result = .ok others ∧
      whole.terms.length = 3 ∧ others.joins.length = 1 ∧ whole.joins = others.joins := by
  have unmatched : (compileSorts Books.context { strict := true } [⟨"Author.Age", .ascending⟩] (.entity "Book")
      none).result = .error (.fieldNotFound "Author" "Age" "Author.Age") := rfl
  obtain ⟨whole, ok, three⟩ : ∃ whole, (compileSorts Books.context { strict := false }
      ([⟨"Notes.Stars", .descending⟩] ++ ⟨"Author.Age", .ascending⟩ :: [⟨"Notes.Body", .ascending⟩])
      (.entity "Book") none).result = .ok whole ∧ whole.terms.length = 3 := ⟨_, rfl, rfl⟩
  obtain ⟨others, rest, one⟩ : ∃ others, (compileSorts Books.context { strict := false }
      ([⟨"Notes.Stars", .descending⟩] ++ [⟨"Notes.Body", .ascending⟩]) (.entity "Book") none).result = .ok others ∧
      others.joins.length = 1 := ⟨_, rfl, rfl⟩
  obtain ⟨_, _, _, _, _, again, _, joins⟩ := (compile_concat Books.context (.entity "Book") none).2.2 []
    ⟨"Author.Age", .ascending⟩ "Author" "Age" "Author.Age" unmatched _ _ whole ok
  cases again.symm.trans rest
  exact ⟨unmatched, whole, others, ok, again, three, one, joins⟩

end RowQuery.Compile
