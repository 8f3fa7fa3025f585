import Mathlib.Data.List.Forall2
import Mathlib.Data.List.Nodup
import RowQuery.Compile.Statement

/-!
# Successful compilations

What a compilation that succeeds is made of. `Narrowed` lists the ways in which a filter's path comes
to a condition, and `Searched` those in which a search comes to its alternatives; both follow the
recursion of the compilers, so that a property of conditions is proved by induction on them.
`Stages.Yield` says what a whole query is put together from.
-/

namespace RowQuery

/-- A computation goes on only from a result. -/
theorem bind_eq_ok {ε α β : Type} {x : Except ε α} {f : α → Except ε β} {b : β} :
    (x >>= f) = .ok b ↔ ∃ a, x = .ok a ∧ f a = .ok b := by
  cases x with
  | error e => simp [bind, Except.bind]
  | ok a => simp [bind, Except.bind]

theorem map_eq_ok {ε α β : Type} {x : Except ε α} {f : α → β} {b : β} :
    x.map f = .ok b ↔ ∃ a, x = .ok a ∧ f a = b := by
  cases x with
  | error e => simp [Except.map]
  | ok a => simp [Except.map]

/-- All of a list succeed, each with its own result. -/
theorem mapM_eq_ok {ε α β : Type} {f : α → Except ε β} {xs : List α} {ys : List β} :
    xs.mapM f = .ok ys ↔ List.Forall₂ (fun x y => f x = .ok y) xs ys := by
  induction xs generalizing ys with
  | nil => simp [pure, Except.pure, eq_comm]
  | cons x xs ih =>
    simp only [List.mapM_cons, bind_eq_ok, ih, List.forall₂_cons_left_iff]
    constructor
    · rintro ⟨y, first, ys', rest, same⟩
      cases same
      exact ⟨y, ys', first, rest, rfl⟩
    · rintro ⟨y, ys', first, rest, rfl⟩
      exact ⟨y, first, ys', rest, rfl⟩

/-- What is related to the items of a list comes from one of them. -/
theorem exists_left_of_forall₂ {α β : Type} {R : α → β → Prop} {xs : List α} {ys : List β}
    (related : List.Forall₂ R xs ys) {y : β} (member : y ∈ ys) : ∃ x ∈ xs, R x y := by
  induction related with
  | nil => cases member
  | cons first rest ih =>
    rcases List.mem_cons.mp member with rfl | member
    · exact ⟨_, by simp, first⟩
    · obtain ⟨x, inside, holds⟩ := ih member
      exact ⟨x, by simp [inside], holds⟩

/-- There are related items for a list if there is one for each of its items. -/
theorem exists_forall₂_iff {α β : Type} {R : α → β → Prop} {xs : List α} :
    (∃ ys, List.Forall₂ R xs ys) ↔ ∀ x ∈ xs, ∃ y, R x y := by
  constructor
  · rintro ⟨ys, related⟩ x member
    obtain ⟨y, -, holds⟩ := exists_left_of_forall₂ related.flip member
    exact ⟨y, holds⟩
  · intro each
    induction xs with
    | nil => exact ⟨[], .nil⟩
    | cons x xs ih =>
      obtain ⟨y, first⟩ := each x List.mem_cons_self
      obtain ⟨ys, rest⟩ := ih fun z member => each z (List.mem_cons_of_mem x member)
      exact ⟨y :: ys, .cons first rest⟩

theorem isEmpty_of_forall₂ {α β : Type} {R : α → β → Prop} {xs : List α} {ys : List β}
    (related : List.Forall₂ R xs ys) : xs.isEmpty = ys.isEmpty := by
  cases related <;> rfl

namespace Text

/-- Merging keeps what was seen and takes what is new. -/
theorem mem_mergeNew {α : Type} [DecidableEq α] {seen xs : List α} {x : α} :
    x ∈ mergeNew seen xs ↔ x ∈ seen ∨ x ∈ xs := by
  unfold mergeNew
  induction xs generalizing seen with
  | nil => simp
  | cons y ys ih =>
    rw [List.foldl_cons, ih]
    by_cases member : y ∈ seen
    · simp only [member, if_true, List.mem_cons]
      constructor
      · rintro (old | new)
        · exact .inl old
        · exact .inr (.inr new)
      · rintro (old | rfl | new)
        · exact .inl old
        · exact .inl member
        · exact .inr new
    · simp [member, or_assoc]

/-- Merging puts what is new behind what was seen. -/
theorem exists_mergeNew_eq {α : Type} [DecidableEq α] (seen xs : List α) :
    ∃ new, mergeNew seen xs = seen ++ new ∧ new ⊆ xs := by
  unfold mergeNew
  induction xs generalizing seen with
  | nil => exact ⟨[], by simp, List.Subset.refl _⟩
  | cons y ys ih =>
    rw [List.foldl_cons]
    by_cases member : y ∈ seen
    · rw [if_pos member]
      obtain ⟨new, same, sub⟩ := ih seen
      exact ⟨new, same, List.subset_cons_of_subset y sub⟩
    · rw [if_neg member]
      obtain ⟨new, same, sub⟩ := ih (seen ++ [y])
      exact ⟨y :: new, by simp [same], List.cons_subset_cons y sub⟩

/-- Nothing repeats in what is merged. -/
theorem nodup_mergeNew {α : Type} [DecidableEq α] {seen : List α} (nodup : seen.Nodup) (xs : List α) :
    (mergeNew seen xs).Nodup := by
  unfold mergeNew
  induction xs generalizing seen with
  | nil => exact nodup
  | cons y ys ih =>
    rw [List.foldl_cons]
    by_cases member : y ∈ seen
    · rw [if_pos member]
      exact ih nodup
    · rw [if_neg member]
      exact ih (nodup.append (List.nodup_singleton y) (by simpa using member))

/-- Splitting gives a first part and the others. -/
theorem splitChars_eq_splitOn (sep : Char) (cs : List Char) :
    (splitChars sep cs).1 :: (splitChars sep cs).2 = cs.splitOn sep := by
  induction cs with
  | nil => rfl
  | cons c cs ih =>
    rw [List.splitOn, List.splitOnP_cons_eq_if_modifyHead, ← List.splitOn, ← ih]
    by_cases separator : c = sep
    · simp [splitChars, separator]
    · simp [splitChars, separator]

end Text

/-- The elements of a list are the parts of the value between its separators. -/
theorem Operation.elements_of_separator {op : Operation} {sep : Char} (separator : op.separator? = some sep)
    (value : String) : op.elements value = (value.toList.splitOn sep).map String.ofList := by
  rw [Operation.elements, separator, ← Text.splitChars_eq_splitOn]
  rfl

theorem Operation.mem_elements {op : Operation} {sep : Char} (separator : op.separator? = some sep)
    {value element : String} :
    element ∈ op.elements value ↔ element.toList ∈ value.toList.splitOn sep := by
  rw [Operation.elements_of_separator separator, List.mem_map]
  constructor
  · rintro ⟨cs, part, rfl⟩
    rwa [String.toList_ofList]
  · intro part
    exact ⟨element.toList, part, String.ofList_toList⟩

namespace Filter

open RowQuery.Sql

/-- A list of values has at least one. -/
theorem rawValues_ne_nil (flt : Filter) : flt.rawValues ≠ [] := by
  unfold rawValues Operation.elements
  split
  · simp [Text.split]
  · simp

theorem rawValues_of_single {flt : Filter} (single : flt.operation.isList = false) :
    flt.rawValues = [flt.value] := by
  cases operation : flt.operation <;>
    simp_all [rawValues, Operation.elements, Operation.isList, Operation.separator?]

theorem isNullTest_of_isList {flt : Filter} (list : flt.operation.isList = true) :
    flt.isNullTest = false := by
  cases operation : flt.operation <;> simp_all [isNullTest, Operation.isList, Operation.separator?]

theorem isNullTest_of_isNullWord {flt : Filter}
    (operation : flt.operation = .equal ∨ flt.operation = .notEqual)
    (word : isNullWord flt.value = true) : flt.isNullTest = true := by
  rcases operation with operation | operation <;> simp [isNullTest, operation, word]

/-- The tests that a filter can make of a column of a kind. -/
inductive Tested (flt : Filter) (kind : Option ColumnKind) : Test → Prop where
  | isNull (operation : flt.operation = .equal) (word : isNullWord flt.value = true) :
      Tested flt kind .isNull
  | isNotNull (operation : flt.operation = .notEqual) (word : isNullWord flt.value = true) :
      Tested flt kind .isNotNull
  | oneOf {values : List Value} (list : flt.operation.isList = true)
      (read : List.Forall₂ (fun raw v => convert kind flt.name raw = .ok v) flt.rawValues values) :
      Tested flt kind (.oneOf values)
  | compare {value : Value} (bound : flt.isNullTest = false) (single : flt.operation.isList = false)
      (read : convert kind flt.name flt.value = .ok value) :
      Tested flt kind (.compare flt.operation.comparison value)

theorem tested_of_test {flt : Filter} {kind : Option ColumnKind} {t : Test}
    (ok : flt.test kind = .ok t) : flt.Tested kind t := by
  unfold Filter.test Operation.test at ok
  split at ok
  case isTrue null =>
    simp only [Bool.and_eq_true, decide_eq_true_eq] at null
    cases ok
    exact .isNull null.1 null.2
  case isFalse notNull =>
    split at ok
    case isTrue null =>
      simp only [Bool.and_eq_true, decide_eq_true_eq] at null
      cases ok
      exact .isNotNull null.1 null.2
    case isFalse notMissing =>
      split at ok
      case isTrue list =>
        obtain ⟨values, read, rfl⟩ := map_eq_ok.mp ok
        exact .oneOf list (mapM_eq_ok.mp read)
      case isFalse single =>
        obtain ⟨value, read, rfl⟩ := map_eq_ok.mp ok
        have bound : flt.isNullTest = false := by
          cases operation : flt.operation <;> simp_all [isNullTest]
        exact .compare bound (by simpa using single) read

end Filter

namespace Compile

open RowQuery.Schema RowQuery.Sql RowQuery.Join

namespace Traced

variable {α β : Type}

@[simp] theorem result_liftM (x : Except Error α) : (liftM x : Traced α).result = x := rfl

@[simp] theorem result_throw (e : Error) : (throw e : Traced α).result = .error e := rfl

@[simp] theorem result_note (r : Log.Record) : (note r).result = .ok () := rfl

/-- The trace is only written, so a computation goes on as its result does. -/
instance : LawfulMonad Traced := by
  refine LawfulMonad.mk' Traced ?_ ?_ ?_
  · intro α x
    show andThen x (fun a => lift (.ok a)) = x
    obtain ⟨result, events⟩ := x
    cases result <;> simp [andThen, lift]
  · intro α β a f
    show andThen (lift (.ok a)) f = f a
    simp [andThen, lift]
  · intro α β γ x f g
    show andThen (andThen x f) g = andThen x fun a => andThen (f a) g
    obtain ⟨result, events⟩ := x
    cases result with
    | error e => rfl
    | ok a => cases found : (f a).result <;> simp [andThen, found]

/-- A record that is left has no part in the result. -/
theorem result_noted (noted : Bool) (r : Log.Record) (a : α) :
    (if noted = true then do note r; pure a else pure a : Traced α).result = .ok a := by
  cases noted <;> rfl

/-- The results of a list of computations are the list of their results. -/
@[simp] theorem result_mapM (f : α → Traced β) (xs : List α) :
    (xs.mapM f).result = xs.mapM fun x => (f x).result := by
  induction xs with
  | nil => rfl
  | cons x xs ih => simp only [List.mapM_cons, result_bind, ih, result_pure]; rfl

end Traced

@[simp] theorem result_describe (ctx : Context) (subject : Subject) :
    (ctx.describe subject).result = ctx.schemaOf subject := by
  simp only [Context.describe, Traced.result_bind, Traced.result_liftM, Traced.result_emit,
    Traced.result_pure]
  cases ctx.schemaOf subject <;> rfl

/-! ## Filters -/

/-- Whether a field is compared in all languages at once. -/
def Context.acrossLanguages (ctx : Context) (f : Field) : Bool :=
  f.translated && ctx.localizer.isAll ctx.localizer.ownLanguage

/-- The conditions that a filter can have on the column of a field. -/
inductive LeafCondition (ctx : Context) (flt : Filter) (f : Field) (table : Option String) :
    Predicate → Prop where
  /-- The column, or its text in one language, is tested. -/
  | tested {lhs : Expr} {t : Test}
      (single : ctx.acrossLanguages f = false)
      (expr : ctx.localizer.expr f table .null = .ok lhs)
      (test : flt.test (if f.translated then some .string else f.kind) = .ok t) :
      LeafCondition ctx flt f table (.test lhs t)
  /-- No text is there in any language, or some is. -/
  | isNull (across : ctx.acrossLanguages f = true) (operation : flt.operation = .equal)
      (word : isNullWord flt.value = true) :
      LeafCondition ctx flt f table (.test (.column { table, name := f.column }) .isNull)
  | isNotNull (across : ctx.acrossLanguages f = true) (operation : flt.operation = .notEqual)
      (word : isNullWord flt.value = true) :
      LeafCondition ctx flt f table (.test (.column { table, name := f.column }) .isNotNull)
  /-- A text of some language matches a pattern. -/
  | like (across : ctx.acrossLanguages f = true) (operation : flt.operation = .like) :
      LeafCondition ctx flt f table
        (.anyLanguage { table, name := f.column } true flt.value)
  | equal (across : ctx.acrossLanguages f = true) (operation : flt.operation = .equal)
      (value : isNullWord flt.value = false) :
      LeafCondition ctx flt f table
        (.anyLanguage { table, name := f.column } true (escapeLike flt.value))
  | notEqual (across : ctx.acrossLanguages f = true) (operation : flt.operation = .notEqual)
      (value : isNullWord flt.value = false) :
      LeafCondition ctx flt f table
        (.anyLanguage { table, name := f.column } false (escapeLike flt.value))
  /-- A text of some language is one of several. -/
  | oneOf {first : String} {others : List String}
      (across : ctx.acrossLanguages f = true) (list : flt.operation.isList = true)
      (values : flt.rawValues = first :: others) :
      LeafCondition ctx flt f table
        (.group (.anyOf (.anyLanguage { table, name := f.column } true (escapeLike first))
          (others.map fun v => .anyLanguage { table, name := f.column } true (escapeLike v))))

/-- A condition across all languages is one of those listed. -/
theorem leafCondition_of_anyLanguage {ctx : Context} {flt : Filter} {f : Field}
    {table : Option String} {p : Predicate} (across : ctx.acrossLanguages f = true)
    (ok : ctx.localizer.anyLanguage f table flt = .ok p) : LeafCondition ctx flt f table p := by
  simp only [Localizer.anyLanguage, Localizer.column, bind_eq_ok] at ok
  obtain ⟨c, ⟨_, _, same⟩, ok⟩ := ok
  cases same
  -- The null tests come first, so the operation alone decides only behind them.
  cases operation : flt.operation with
  | equal =>
    cases word : isNullWord flt.value with
    | true =>
      simp only [operation, word, decide_true, Bool.and_self, if_true] at ok
      cases ok
      exact .isNull across operation word
    | false =>
      simp [operation, word] at ok
      cases ok
      exact .equal across operation word
  | notEqual =>
    cases word : isNullWord flt.value with
    | true =>
      simp [operation, word] at ok
      cases ok
      exact .isNotNull across operation word
    | false =>
      simp [operation, word] at ok
      cases ok
      exact .notEqual across operation word
  | like =>
    simp [operation] at ok
    cases ok
    exact .like across operation
  | oneOf | oneOfAlt =>
    have list : flt.operation.isList = true := by rw [operation]; rfl
    cases values : flt.rawValues with
    | nil => exact absurd values flt.rawValues_ne_nil
    | cons first others =>
      simp [operation, values] at ok
      cases ok
      exact .oneOf across list values
  | less | lessEqual | greater | greaterEqual => simp [operation] at ok

/-- A condition on a column is one of those listed. -/
theorem leafCondition_eq_ok {ctx : Context} {flt : Filter} {f : Field} {table : Option String}
    {p : Predicate} (ok : leafCondition ctx flt f table = .ok p) :
    LeafCondition ctx flt f table p := by
  unfold leafCondition at ok
  cases across : ctx.acrossLanguages f with
  | true =>
    simp only [Context.acrossLanguages] at across
    simp only [across, if_true] at ok
    exact leafCondition_of_anyLanguage across ok
  | false =>
    have single := across
    simp only [Context.acrossLanguages] at across
    simp only [across, Bool.false_eq_true, if_false, bind_eq_ok] at ok
    obtain ⟨lhs, expr, t, test, ok⟩ := ok
    cases ok
    exact .tested single expr test

/-- The frames that a relation can have, one for each kind. -/
inductive Framed (settings : Settings) (f : Field) (outer related : String) : List Frame → Prop where
  | direct {key : String} (kind : f.relation = .direct) (named : settings.keyName = .ok key) :
      Framed settings f outer related (directFrames outer (f.foreignColumn settings) related key)
  | pivot {toOuter toRelated pivot : String} (kind : f.relation = .manyToMany)
      (outerColumn : settings.keyColumn outer = .ok toOuter)
      (relatedColumn : settings.keyColumn related = .ok toRelated)
      (through : (Detail.ofText? f.manyToMany).quotable = .ok pivot) :
      Framed settings f outer related
        (pivotFrames outer toOuter pivot toRelated related settings.primaryKey.plain)
  | polymorphic {key idColumn typeColumn : String} (kind : f.relation = .polymorphic)
      (named : settings.keyName = .ok key)
      (id : settings.keyColumn (Detail.ofText? f.polymorphic) = .ok idColumn)
      (type : settings.typeColumn (Detail.ofText? f.polymorphic) = .ok typeColumn) :
      Framed settings f outer related (polymorphicFrames outer related key idColumn typeColumn)

theorem framed_of_relationFrames {settings : Settings} {dialect : Option String} {f : Field}
    {outer related : String} {frames : List Frame}
    (ok : relationFrames settings dialect f outer related = .ok frames) :
    Framed settings f outer related frames := by
  unfold relationFrames at ok
  cases kind : f.relation with
  | none => simp [kind] at ok
  | direct =>
    simp only [kind, bind_eq_ok] at ok
    obtain ⟨_, _, key, named, ok⟩ := ok
    cases ok
    exact .direct kind named
  | manyToMany =>
    simp only [kind, bind_eq_ok] at ok
    obtain ⟨toOuter, outerColumn, _, _, toRelated, relatedColumn, pivot, through, ok⟩ := ok
    cases ok
    exact .pivot kind outerColumn relatedColumn through
  | polymorphic =>
    simp only [kind, bind_eq_ok] at ok
    obtain ⟨_, _, key, named, idColumn, id, typeColumn, type, ok⟩ := ok
    cases ok
    exact .polymorphic kind named id type

theorem get?_of_field {schema : Schema} {name path : String} {f : Field}
    (found : schema.field name path = .ok f) : schema.get? name = some f := by
  unfold Schema.field at found
  split at found
  case h_1 g same => rw [same, Except.ok.inj found]
  case h_2 => cases found

theorem field_of_get? {schema : Schema} {name path : String} {f : Field}
    (found : schema.get? name = some f) : schema.field name path = .ok f := by
  rw [Schema.field, found]

theorem mem_of_field {schema : Schema} {name path : String} {f : Field}
    (found : schema.field name path = .ok f) : f ∈ schema.fields ∧ f.name = name := by
  have first : schema.fields.find? (·.name == name) = some f := get?_of_field found
  exact ⟨List.mem_of_find?_eq_some first, by simpa using List.find?_some first⟩

/-- The site behind a relation that is left to a join. -/
def Site.behindJoin (site : Site) (related : Schema) (path : String) (config : Config) : Site :=
  { schema := related, table := config.table, qualified := true, walked := some (path ++ ".")
    depth := site.depth + 1 }

/-- The site behind a relation that becomes a subselect. -/
def Site.behindSelect (site : Site) (related : Schema) (f : Field) : Site :=
  { schema := related, table := related.table, qualified := f.relation != .manyToMany
    walked := none, depth := site.depth + 1 }

/-- A walk along the segments of a filter's path that comes to a condition. -/
inductive Narrowed (ctx : Context) (flt : Filter) :
    List String → String → Site → Narrowing → Prop where
  /-- The path ends in a column. -/
  | leaf {head : String} {site : Site} {f : Field} {p : Predicate}
      (shallow : ctx.checkDepth site.depth flt.name = .ok ())
      (found : site.schema.field head flt.name = .ok f)
      (column : f.isRelation = false)
      (condition : leafCondition ctx flt f site.qualifier = .ok p) :
      Narrowed ctx flt [] head site ⟨p, []⟩
  /-- The path leads into a column. -/
  | inner {next head : String} {more : List String} {site : Site} {f : Field} {lhs : Expr} {t : Test}
      (shallow : ctx.checkDepth site.depth flt.name = .ok ())
      (found : site.schema.field head flt.name = .ok f)
      (column : f.isRelation = false)
      (expr : innerExpr ctx site.schema.entity flt.name f site.qualifier (next :: more) = .ok lhs)
      (test : flt.test (some .string) = .ok t) :
      Narrowed ctx flt (next :: more) head site ⟨.test lhs t, []⟩
  /-- A registered relation is left to a join. -/
  | joined {next head path : String} {more : List String} {site : Site} {f : Field}
      {related : Schema} {config : Config} {n : Narrowing}
      (shallow : ctx.checkDepth site.depth flt.name = .ok ())
      (found : site.schema.field head flt.name = .ok f)
      (relation : f.isRelation = true)
      (target : (ctx.related f).result = .ok related)
      (registered : ctx.registered? site.walked head = some (path, config))
      (rest : Narrowed ctx flt more next (site.behindJoin related path config) n) :
      Narrowed ctx flt (next :: more) head site ⟨n.condition, path :: n.paths⟩
  /-- Any other relation becomes a subselect. -/
  | nested {next head : String} {more : List String} {site : Site} {f : Field} {related : Schema}
      {frames : List Frame} {n : Narrowing}
      (shallow : ctx.checkDepth site.depth flt.name = .ok ())
      (found : site.schema.field head flt.name = .ok f)
      (relation : f.isRelation = true)
      (target : (ctx.related f).result = .ok related)
      (unregistered : ctx.registered? site.walked head = none)
      (rest : Narrowed ctx flt more next (site.behindSelect related f) n)
      (framed : relationFrames ctx.settings ctx.dialect f site.table related.table = .ok frames) :
      Narrowed ctx flt (next :: more) head site ⟨Frame.nest frames n.condition, n.paths⟩

/-- One step of a walk that ends. -/
theorem result_narrow_nil (ctx : Context) (flt : Filter) (head : String) (site : Site) :
    (narrow ctx flt [] head site).result = do
      ctx.checkDepth site.depth flt.name
      let f ← site.schema.field head flt.name
      if f.isRelation then throw (.relationCompared flt.name)
      else return ⟨← leafCondition ctx flt f site.qualifier, []⟩ := by
  simp only [narrow, Traced.result_bind, Traced.result_liftM]
  congr
  funext _
  congr
  funext f
  cases f.isRelation with
  | false => simp only [Bool.false_eq_true, if_false, Traced.result_bind, Traced.result_liftM]; rfl
  | true => rfl

/-- One step of a walk that goes on: into a column, or behind a relation. -/
theorem result_narrow_cons (ctx : Context) (flt : Filter) (next : String) (more : List String) (head : String)
    (site : Site) :
    (narrow ctx flt (next :: more) head site).result = do
      ctx.checkDepth site.depth flt.name
      let f ← site.schema.field head flt.name
      if f.isRelation then do
        let related ← (ctx.related f).result
        match ctx.registered? site.walked head with
        | some (path, config) => do
          let n ← (narrow ctx flt more next (site.behindJoin related path config)).result
          return ⟨n.condition, path :: n.paths⟩
        | none => do
          let n ← (narrow ctx flt more next (site.behindSelect related f)).result
          let frames ← relationFrames ctx.settings ctx.dialect f site.table related.table
          return ⟨Frame.nest frames n.condition, n.paths⟩
      else do
        let lhs ← innerExpr ctx site.schema.entity flt.name f site.qualifier (next :: more)
        return ⟨.test lhs (← flt.test (some .string)), []⟩ := by
  simp only [narrow, Traced.result_bind, Traced.result_liftM]
  congr
  funext _
  congr
  funext f
  cases f.isRelation with
  | false => simp only [Bool.not_false, if_true, Traced.result_bind, Traced.result_liftM]; rfl
  | true =>
    simp only [Bool.not_true, Bool.false_eq_true, if_false, if_true, Traced.result_bind]
    congr
    funext related
    cases ctx.registered? site.walked head with
    | none => simp only [Traced.result_bind, Traced.result_liftM]; rfl
    | some entry => simp only [Traced.result_bind]; rfl

/-- A walk that succeeds is one of those listed. -/
theorem narrowed_of_narrow {ctx : Context} {flt : Filter} {rest : List String} {head : String}
    {site : Site} {n : Narrowing} (ok : (narrow ctx flt rest head site).result = .ok n) :
    Narrowed ctx flt rest head site n := by
  induction rest generalizing head site n with
  | nil =>
    simp only [result_narrow_nil, bind_eq_ok] at ok
    obtain ⟨_, shallow, f, found, ok⟩ := ok
    cases column : f.isRelation with
    | true =>
      rw [if_pos column] at ok
      cases ok
    | false =>
      simp only [column, Bool.false_eq_true, if_false, bind_eq_ok] at ok
      obtain ⟨p, condition, ok⟩ := ok
      cases ok
      exact .leaf shallow found column condition
  | cons next more ih =>
    simp only [result_narrow_cons, bind_eq_ok] at ok
    obtain ⟨_, shallow, f, found, ok⟩ := ok
    cases relation : f.isRelation with
    | false =>
      simp only [relation, Bool.false_eq_true, if_false, bind_eq_ok] at ok
      obtain ⟨lhs, expr, t, test, ok⟩ := ok
      cases ok
      exact .inner shallow found relation expr test
    | true =>
      simp only [relation, if_true, bind_eq_ok] at ok
      obtain ⟨related, target, ok⟩ := ok
      cases registered : ctx.registered? site.walked head with
      | some entry =>
        obtain ⟨path, config⟩ := entry
        simp only [registered, bind_eq_ok] at ok
        obtain ⟨n, walked, ok⟩ := ok
        cases ok
        exact .joined shallow found relation target registered (ih walked)
      | none =>
        simp only [registered, bind_eq_ok] at ok
        obtain ⟨n, walked, frames, framed, ok⟩ := ok
        cases ok
        exact .nested shallow found relation target registered (ih walked) framed

/-- The root of the walks of a request on a subject, whose table may go by another name. -/
def rootTable (schema : Schema) (table : Option String) : String :=
  (nonEmpty? table).getD schema.table

/-- The name that a table goes by is kept. -/
theorem rootTable_rootTable (schema : Schema) (table : Option String) :
    rootTable schema (some (rootTable schema table)) = rootTable schema table := by
  cases named : nonEmpty? table with
  | none => cases empty : schema.table == "" <;> simp_all [rootTable, nonEmpty?, Option.filter]
  | some name =>
    have notEmpty := (Option.filter_eq_some_iff.mp named).2
    have same : nonEmpty? (some name) = some name := by simp [nonEmpty?, Option.filter, notEmpty]
    rw [rootTable, rootTable, named, Option.getD_some, same, Option.getD_some]

theorem result_compileFilters (ctx : Context) (filters : List Filter) (subject : Subject)
    (table : Option String) :
    (compileFilters ctx filters subject table).result = do
      let schema ← ctx.schemaOf subject
      let found ← filters.mapM fun flt => (narrow ctx flt flt.path.rest flt.path.head
        (.root schema (rootTable schema table))).result
      return ⟨found.map (·.condition), Text.mergeNew [] (found.flatMap (·.paths))⟩ := by
  simp only [compileFilters, Traced.result_bind, result_describe, Traced.result_mapM, Traced.result_noted]
  rfl

/-- Filters are compiled exactly if each of them is, by one walk each. -/
theorem compileFilters_eq_ok {ctx : Context} {filters : List Filter} {subject : Subject}
    {table : Option String} {part : FilterPart} :
    (compileFilters ctx filters subject table).result = .ok part ↔
      ∃ schema found, ctx.schemaOf subject = .ok schema ∧
        List.Forall₂ (fun flt n => (narrow ctx flt flt.path.rest flt.path.head
          (.root schema (rootTable schema table))).result = .ok n) filters found ∧
        part = ⟨found.map (·.condition), Text.mergeNew [] (found.flatMap (·.paths))⟩ := by
  simp only [result_compileFilters, bind_eq_ok, mapM_eq_ok]
  constructor
  · rintro ⟨schema, described, found, walked, same⟩
    exact ⟨schema, found, described, walked, (Except.ok.inj same).symm⟩
  · rintro ⟨schema, found, described, walked, rfl⟩
    exact ⟨schema, described, found, walked, rfl⟩

/-! ## Search -/

/-- The site behind a relation that is left to a join. -/
def SearchSite.behindJoin (site : SearchSite) (related : Schema) (path : String) (config : Config) :
    SearchSite :=
  { schema := related, table := config.table, walked := some (path ++ ".")
    chain := site.chain ++ [related.entity] }

/-- The site behind a relation that becomes a subselect. -/
def SearchSite.behindSelect (site : SearchSite) (related : Schema) : SearchSite :=
  { schema := related, table := related.table, walked := none
    chain := site.chain ++ [related.entity] }

/-- The alternatives behind a joined relation, whose path is needed if there are any. -/
def SearchPart.behindPath (inner : SearchPart) (path : String) : SearchPart :=
  if inner.alternatives.isEmpty then inner
  else { inner with paths := Text.mergeNew [path] inner.paths }

/-- The condition of a relation's subselect: one of the alternatives, in brackets where others stand
    beside it. -/
def alternativesCondition (f : Field) (p : Predicate) (ps : List Predicate) : Predicate :=
  if f.relation = .polymorphic && !ps.isEmpty then .group (.anyOf p ps) else .anyOf p ps

/-- A search through some fields of a site that succeeds, from what was found before to what is found
    then. -/
inductive Searched (ctx : Context) (term : String) :
    Nat → SearchSite → List Field → SearchPart → SearchPart → Prop where
  | done {budget : Nat} {site : SearchSite} {found : SearchPart} :
      Searched ctx term budget site [] found found
  /-- The term is looked for in a column. -/
  | column {budget : Nat} {site : SearchSite} {f : Field} {fs : List Field}
      {found here last : SearchPart}
      (plain : f.isRelation = false)
      (searched : searchColumn ctx term site f = .ok here)
      (rest : Searched ctx term budget site fs (found.append here) last) :
      Searched ctx term budget site (f :: fs) found last
  /-- The term is looked for behind a registered relation. -/
  | joined {budget : Nat} {site : SearchSite} {f : Field} {fs : List Field} {related : Schema}
      {path : String} {config : Config} {found inner last : SearchPart}
      (relation : f.isRelation = true)
      (target : (ctx.related f).result = .ok related)
      (fresh : related.entity ∉ site.chain)
      (registered : ctx.registered? site.walked f.name = some (path, config))
      (behind : Searched ctx term budget (site.behindJoin related path config)
        related.searchableFields ⟨[], []⟩ inner)
      (rest : Searched ctx term (budget + 1) site fs (found.append (inner.behindPath path)) last) :
      Searched ctx term (budget + 1) site (f :: fs) found last
  /-- Nothing is looked for behind a relation without searchable fields. -/
  | barren {budget : Nat} {site : SearchSite} {f : Field} {fs : List Field} {related : Schema}
      {paths : List String} {found last : SearchPart}
      (relation : f.isRelation = true)
      (target : (ctx.related f).result = .ok related)
      (fresh : related.entity ∉ site.chain)
      (unregistered : ctx.registered? site.walked f.name = none)
      (behind : Searched ctx term budget (site.behindSelect related)
        related.searchableFields ⟨[], []⟩ ⟨[], paths⟩)
      (rest : Searched ctx term (budget + 1) site fs (found.append ⟨[], paths⟩) last) :
      Searched ctx term (budget + 1) site (f :: fs) found last
  /-- The alternatives behind a relation become one, with a subselect. -/
  | nested {budget : Nat} {site : SearchSite} {f : Field} {fs : List Field} {related : Schema}
      {p : Predicate} {ps : List Predicate} {paths : List String} {frames : List Frame}
      {found last : SearchPart}
      (relation : f.isRelation = true)
      (target : (ctx.related f).result = .ok related)
      (fresh : related.entity ∉ site.chain)
      (unregistered : ctx.registered? site.walked f.name = none)
      (behind : Searched ctx term budget (site.behindSelect related)
        related.searchableFields ⟨[], []⟩ ⟨p :: ps, paths⟩)
      (framed : relationFrames ctx.settings ctx.dialect f site.table related.table = .ok frames)
      (rest : Searched ctx term (budget + 1) site fs
        (found.append ⟨[Frame.nest frames (alternativesCondition f p ps)], paths⟩) last) :
      Searched ctx term (budget + 1) site (f :: fs) found last

/-- One step of a search: what a field of the site adds. -/
def searchField (ctx : Context) (term : String) (budget : Nat) (site : SearchSite) (f : Field) :
    Traced SearchPart :=
  if !f.isRelation then (searchColumn ctx term site f : Traced SearchPart)
  else do
    let related ← ctx.related f
    if related.entity ∈ site.chain then
      throw (.cyclicSearch f.name (site.chain ++ [related.entity]))
    match budget with
    | 0 => throw (Depth.fault ctx.maxDepth f.name)
    | budget + 1 => searchRelation ctx site f related (search ctx term budget)

theorem search_eq (ctx : Context) (term : String) (budget : Nat) (site : SearchSite) :
    search ctx term budget site = site.schema.searchableFields.foldlM (fun found f => do
      return found.append (← searchField ctx term budget site f)) ⟨[], []⟩ := by
  unfold search
  congr
  funext found f
  unfold searchField
  cases relation : f.isRelation with
  | false => simp
  | true =>
    cases budget <;>
      simp only [Bool.not_true, Bool.false_eq_true, if_false, bind_assoc] <;>
      congr <;> funext related <;> split <;> simp

/-- What a field adds, if it is no error: the alternative of a column, or what is found behind a
    relation. -/
theorem searchField_eq_ok {ctx : Context} {term : String} {budget : Nat} {site : SearchSite}
    {f : Field} {here : SearchPart}
    (ok : (searchField ctx term budget site f).result = .ok here) :
    (f.isRelation = false ∧ searchColumn ctx term site f = .ok here) ∨
      ∃ less related, budget = less + 1 ∧ f.isRelation = true ∧
        (ctx.related f).result = .ok related ∧ related.entity ∉ site.chain ∧
        (searchRelation ctx site f related (search ctx term less)).result = .ok here := by
  unfold searchField at ok
  cases relation : f.isRelation with
  | false => exact .inl ⟨rfl, by simpa [relation] using ok⟩
  | true =>
    right
    simp only [relation, Bool.not_true, Bool.false_eq_true, if_false, Traced.result_bind,
      bind_eq_ok] at ok
    obtain ⟨related, target, ok⟩ := ok
    by_cases cyclic : related.entity ∈ site.chain
    · simp [cyclic, bind_eq_ok] at ok
    · simp only [cyclic, if_false] at ok
      cases budget with
      | zero => cases ok
      | succ less => exact ⟨less, related, rfl, rfl, target, cyclic, ok⟩

/-- A search that succeeds is one of those listed. -/
theorem searched_of_search {ctx : Context} {term : String} {budget : Nat} {site : SearchSite}
    {part : SearchPart} (ok : (search ctx term budget site).result = .ok part) :
    Searched ctx term budget site site.schema.searchableFields ⟨[], []⟩ part := by
  induction budget using Nat.strongRecOn generalizing site part with
  | ind budget ih =>
    rw [search_eq] at ok
    generalize site.schema.searchableFields = fields at ok ⊢
    generalize (⟨[], []⟩ : SearchPart) = found at ok ⊢
    -- The fields are taken one after the other, with what was found so far.
    induction fields generalizing found with
    | nil =>
      cases ok
      exact .done
    | cons f fs ihFields =>
      simp only [List.foldlM_cons, Traced.result_bind, bind_eq_ok] at ok
      obtain ⟨_, ⟨here, step, same⟩, ok⟩ := ok
      cases same
      have rest := ihFields _ ok
      rcases searchField_eq_ok step with
        ⟨plain, searched⟩ | ⟨less, related, rfl, relation, target, fresh, step⟩
      · exact .column plain searched rest
      · unfold searchRelation at step
        cases registered : ctx.registered? site.walked f.name with
        | some entry =>
          obtain ⟨path, config⟩ := entry
          simp only [registered, Traced.result_bind, bind_eq_ok] at step
          obtain ⟨inner, behind, same⟩ := step
          cases same
          exact .joined relation target fresh registered (ih less (by omega) behind) rest
        | none =>
          simp only [registered, Traced.result_bind, bind_eq_ok] at step
          obtain ⟨⟨alternatives, paths⟩, behind, same⟩ := step
          cases alternatives with
          | nil =>
            cases same
            exact .barren relation target fresh registered (ih less (by omega) behind) rest
          | cons p ps =>
            simp only [Traced.result_bind, Traced.result_liftM, bind_eq_ok] at same
            obtain ⟨frames, framed, same⟩ := same
            cases same
            exact .nested relation target fresh registered (ih less (by omega) behind) framed rest

theorem searchColumn_eq_ok {ctx : Context} {term : String} {site : SearchSite} {f : Field}
    {here : SearchPart} (ok : searchColumn ctx term site f = .ok here) :
    ∃ lhs, ctx.localizer.expr f (some site.table) .null = .ok lhs ∧
      here = ⟨[.test lhs (.compare .like (.str (fillPattern (f.search.getD "") term)))], []⟩ := by
  simp only [searchColumn, bind_eq_ok] at ok
  obtain ⟨lhs, expr, ok⟩ := ok
  cases ok
  exact ⟨lhs, expr, rfl⟩

theorem alternatives_behindPath (inner : SearchPart) (path : String) :
    (inner.behindPath path).alternatives = inner.alternatives := by
  unfold SearchPart.behindPath
  split <;> rfl

/-- What holds of the alternatives of columns, and of those before a relation if it holds of those
    behind it, holds of all alternatives of a search. -/
theorem Searched.forall_alternatives {ctx : Context} {term : String}
    {P : SearchSite → Predicate → Prop}
    (column : ∀ {site : SearchSite} {f : Field} {lhs : Expr} (pattern : String),
      ctx.localizer.expr f (some site.table) .null = .ok lhs →
      P site (.test lhs (.compare .like (.str pattern))))
    (joined : ∀ {site : SearchSite} {f : Field} {related : Schema} {path : String} {config : Config}
      {p : Predicate}, f ∈ site.schema.fields → (ctx.related f).result = .ok related →
      ctx.registered? site.walked f.name = some (path, config) →
      P (site.behindJoin related path config) p → P site p)
    (nested : ∀ {site : SearchSite} {f : Field} {related : Schema} {frames : List Frame}
      {p : Predicate} {ps : List Predicate}, f ∈ site.schema.fields →
      (ctx.related f).result = .ok related →
      relationFrames ctx.settings ctx.dialect f site.table related.table = .ok frames →
      (∀ q ∈ p :: ps, P (site.behindSelect related) q) →
      P site (Frame.nest frames (alternativesCondition f p ps)))
    {budget : Nat} {site : SearchSite} {fields : List Field} {found last : SearchPart}
    (search : Searched ctx term budget site fields found last)
    (known : ∀ f ∈ fields, f ∈ site.schema.fields)
    (before : ∀ p ∈ found.alternatives, P site p) : ∀ p ∈ last.alternatives, P site p := by
  induction search with
  | done => exact before
  | column plain searched rest ih =>
    obtain ⟨lhs, expr, rfl⟩ := searchColumn_eq_ok searched
    apply ih fun f member => known f (by simp [member])
    intro p member
    rcases List.mem_append.mp member with old | new
    · exact before p old
    · cases List.mem_singleton.mp new
      exact column _ expr
  | joined relation target fresh registered behind rest ihBehind ih =>
    apply ih fun f member => known f (by simp [member])
    intro p member
    rcases List.mem_append.mp member with old | new
    · exact before p old
    · rw [alternatives_behindPath] at new
      exact joined (known _ (by simp)) target registered
        (ihBehind (fun f => List.mem_of_mem_filter) (by simp) p new)
  | barren relation target fresh unregistered behind rest ihBehind ih =>
    apply ih fun f member => known f (by simp [member])
    intro p member
    rcases List.mem_append.mp member with old | new
    · exact before p old
    · cases new
  | nested relation target fresh unregistered behind framed rest ihBehind ih =>
    apply ih fun f member => known f (by simp [member])
    intro p member
    rcases List.mem_append.mp member with old | new
    · exact before p old
    · cases List.mem_singleton.mp new
      exact nested (known _ (by simp)) target framed
        (ihBehind (fun f => List.mem_of_mem_filter) (by simp))

/-- Where a search starts. -/
def SearchSite.root (schema : Schema) (table : String) : SearchSite :=
  { schema, table, walked := some "", chain := [schema.entity] }

theorem result_compileSearch (ctx : Context) (term : String) (subject : Subject) (table : Option String) :
    (compileSearch ctx term subject table).result = if term = "" then .ok ⟨[], []⟩ else
      ctx.schemaOf subject >>= fun schema =>
        (search ctx term (Depth.budget ctx.maxDepth) (.root schema (rootTable schema table))).result := by
  by_cases empty : term = ""
  · subst empty
    rfl
  · simp only [compileSearch, beq_iff_eq, empty, if_false, Traced.result_bind, result_describe,
      Traced.result_noted]
    congr
    funext schema
    exact bind_pure _

/-- A compiled search has found nothing for an empty term, or has searched from the root. -/
theorem compileSearch_eq_ok {ctx : Context} {term : String} {subject : Subject}
    {table : Option String} {part : SearchPart}
    (ok : (compileSearch ctx term subject table).result = .ok part) :
    (term = "" ∧ part = ⟨[], []⟩) ∨ (term ≠ "" ∧ ∃ schema, ctx.schemaOf subject = .ok schema ∧
      Searched ctx term (Depth.budget ctx.maxDepth) (.root schema (rootTable schema table))
        schema.searchableFields ⟨[], []⟩ part) := by
  rw [result_compileSearch] at ok
  split at ok
  case isTrue empty =>
    cases ok
    exact .inl ⟨empty, rfl⟩
  case isFalse asked =>
    obtain ⟨schema, described, searched⟩ := bind_eq_ok.mp ok
    exact .inr ⟨asked, schema, described, searched_of_search searched⟩

/-! ## Joins -/

/-- The clauses that a configuration can have, one for each group of keys, and the discriminators. -/
inductive Claused (settings : Settings) (base : String) (config : Config) :
    JoinClause → Option Discriminator → Prop where
  | direct {localKey foreignKey : String} (plan : config.plan = .direct localKey foreignKey) :
      Claused settings base config
        [{ type := config.joinType, table := config.table, left := .of base localKey
           right := .of config.table foreignKey }] none
  | pivot {pivot localKey foreignKey key : String} (plan : config.plan = .pivot pivot localKey foreignKey)
      (named : settings.keyName = .ok key) :
      Claused settings base config
        [{ type := config.joinType, table := pivot, left := .of base key, right := .of pivot localKey },
          { type := config.joinType, table := config.table, left := .of pivot foreignKey
            right := .of config.table key }] none
  | polymorphic {id typeColumn value key : String} (plan : config.plan = .polymorphic id typeColumn value)
      (named : settings.keyName = .ok key) :
      Claused settings base config
        [{ type := config.joinType, table := config.table, left := .of base key
           right := .of config.table id }]
        (some { column := .of config.table typeColumn, value })

theorem clause_eq_ok {settings : Settings} {base : String} {config : Config} {clause : JoinClause}
    {discriminator : Option Discriminator} :
    Registry.clause settings base config = .ok (clause, discriminator) ↔
      Claused settings base config clause discriminator := by
  unfold Registry.clause
  constructor
  · intro ok
    split at ok
    case h_1 plan =>
      cases ok
      exact .direct plan
    case h_2 plan =>
      obtain ⟨key, named, ok⟩ := bind_eq_ok.mp ok
      cases ok
      exact .pivot plan named
    case h_3 plan =>
      obtain ⟨key, named, ok⟩ := bind_eq_ok.mp ok
      cases ok
      exact .polymorphic plan named
  · intro made
    cases made with
    | direct plan => simp only [plan]
    | pivot plan named =>
      simp only [plan, named]
      rfl
    | polymorphic plan named =>
      simp only [plan, named]
      rfl

theorem Claused.type_eq {settings : Settings} {base : String} {config : Config} {clause : JoinClause}
    {type : Option Discriminator} (made : Claused settings base config clause type) :
    ∀ j ∈ clause, j.type = config.joinType := by
  cases made <;> simp

/-- A configuration is joined if it is valid, the dialect is known and it has a clause. -/
theorem join_eq_ok {settings : Settings} {r : Registry} {base : String} {config : Config}
    {inlined : Bool} {x : JoinClause × Option Discriminator} :
    r.join settings base config inlined = .ok x ↔
      config.validate "" = .ok () ∧ (∃ d, Dialect.resolve settings r.dialect = .ok d) ∧
        ∃ clause type, Claused settings base config clause type ∧
          x = if inlined then (Registry.inline clause type, none) else (clause, type) := by
  simp only [Registry.join, bind_eq_ok]
  constructor
  · rintro ⟨_, valid, d, known, ⟨clause, type⟩, made, same⟩
    exact ⟨valid, ⟨d, known⟩, clause, type, clause_eq_ok.mp made, (Except.ok.inj same).symm⟩
  · rintro ⟨valid, ⟨d, known⟩, clause, type, made, rfl⟩
    exact ⟨(), valid, d, known, (clause, type), clause_eq_ok.mpr made, rfl⟩

/-- Registered paths are joined if each of them is. -/
theorem joins_eq_ok {settings : Settings} {r : Registry} {base : String} {paths : List String}
    {inlined : Bool} {clauses : List JoinClause} {types : List Discriminator} :
    r.joins settings base paths inlined = .ok (clauses, types) ↔
      ∃ found, List.Forall₂ (fun path x => ∃ config, r.get? path = some config ∧
          r.join settings base config inlined = .ok x) paths found ∧
        clauses = Text.mergeNew [] (found.map (·.1)) ∧
        types = Text.mergeNew [] (found.filterMap (·.2)) := by
  have required : ∀ (path : String) (x : JoinClause × Option Discriminator),
      (do Registry.join settings r base (← r.require path) inlined) = .ok x ↔
        ∃ config, r.get? path = some config ∧ r.join settings base config inlined = .ok x := by
    intro path x
    rw [bind_eq_ok]
    unfold Registry.require
    cases r.get? path <;> simp
  simp only [Registry.joins, bind_eq_ok, mapM_eq_ok, required]
  constructor
  · rintro ⟨found, each, same⟩
    cases same
    exact ⟨found, each, rfl, rfl⟩
  · rintro ⟨found, each, rfl, rfl⟩
    exact ⟨found, each, rfl⟩

/-- A request without registered joins has none; with some, those that are needed come first. -/
theorem requestJoins_eq_ok {ctx : Context} {table : String} {paths preloads : List String}
    {clauses : List JoinClause} {types : List Discriminator} :
    requestJoins ctx table paths preloads = .ok (clauses, types) ↔
      (ctx.registry = none ∧ clauses = [] ∧ types = []) ∨
      ∃ r needed loaded further, ctx.registry = some r ∧
        r.joins ctx.settings table paths false = .ok (needed, types) ∧
        r.joins ctx.settings table preloads true = .ok (loaded, further) ∧
        clauses = Text.mergeNew needed loaded := by
  unfold requestJoins
  cases registry : ctx.registry with
  | none => simp [eq_comm]
  | some r =>
    simp only [bind_eq_ok, Option.some.injEq, reduceCtorEq, false_and, false_or]
    constructor
    · rintro ⟨⟨needed, types⟩, joined, ⟨loaded, further⟩, preloaded, same⟩
      cases same
      exact ⟨r, needed, loaded, further, rfl, joined, preloaded, rfl⟩
    · rintro ⟨_, needed, loaded, further, rfl, joined, preloaded, rfl⟩
      exact ⟨(needed, types), joined, (loaded, further), preloaded, rfl⟩

/-! ## Sorts -/

/-- The configuration of a relation that a sort goes through: the registered one, or its own. -/
def sortConfig (ctx : Context) (base path : String) (f : Field) : Except Error Config :=
  match ctx.sortRegistry.get? path with
  | some config => .ok config
  | none => Config.ofField ctx.settings f base none

/-- The join of a relation that a sort goes through, unless it is joined already. -/
def sortClause (ctx : Context) (mode : SortMode) (base path : String) (config : Config) :
    Except Error (List JoinClause) :=
  if path ∈ mode.joined then .ok []
  else (ctx.sortRegistry.join ctx.settings base config true).map fun x => [x.1]

/-- The site behind a relation. -/
def SortSite.behind (site : SortSite) (related : Schema) (path : String) (config : Config) :
    SortSite :=
  { schema := related, table := config.table, walked := path ++ ".", depth := site.depth + 1 }

/-- A walk along the segments of a sort's path that comes to a key, with the joins on the way. -/
inductive Keyed (ctx : Context) (mode : SortMode) (name : String) :
    List String → String → SortSite → Expr → List JoinClause → Prop where
  /-- The path ends in a column. -/
  | leaf {head : String} {site : SortSite} {f : Field} {e : Expr}
      (shallow : ctx.checkDepth site.depth name = .ok ())
      (found : site.schema.field head name = .ok f)
      (column : f.isRelation = false)
      (expr : ctx.localizer.sortExpr f (some site.table) .null = .ok e) :
      Keyed ctx mode name [] head site e []
  /-- The path leads into a column. -/
  | inner {next head : String} {more : List String} {site : SortSite} {f : Field} {e : Expr}
      (shallow : ctx.checkDepth site.depth name = .ok ())
      (found : site.schema.field head name = .ok f)
      (column : f.isRelation = false)
      (expr : innerExpr ctx site.schema.entity name f (some site.table) (next :: more) = .ok e) :
      Keyed ctx mode name (next :: more) head site e []
  /-- A relation is joined. -/
  | joined {next head : String} {more : List String} {site : SortSite} {f : Field}
      {related : Schema} {config : Config} {own joins : List JoinClause} {e : Expr}
      (shallow : ctx.checkDepth site.depth name = .ok ())
      (found : site.schema.field head name = .ok f)
      (relation : f.isRelation = true)
      (target : (ctx.related f).result = .ok related)
      (configured : sortConfig ctx site.table (site.walked ++ head) f = .ok config)
      (clause : sortClause ctx mode site.table (site.walked ++ head) config = .ok own)
      (rest : Keyed ctx mode name more next (site.behind related (site.walked ++ head) config) e joins) :
      Keyed ctx mode name (next :: more) head site e (Text.mergeNew own joins)

/-- One step of a sort's walk that ends. -/
theorem result_sortKey_nil (ctx : Context) (mode : SortMode) (name head : String) (site : SortSite) :
    (sortKey ctx mode name [] head site).result = do
      ctx.checkDepth site.depth name
      let f ← site.schema.field head name
      if f.isRelation then throw (.relationSorted name)
      else return (← ctx.localizer.sortExpr f (some site.table) .null, []) := by
  simp only [sortKey, Traced.result_bind, Traced.result_liftM]
  congr
  funext _
  congr
  funext f
  cases f.isRelation with
  | false => simp only [Bool.false_eq_true, if_false, Traced.result_bind, Traced.result_liftM]; rfl
  | true => rfl

/-- One step of a sort's walk that goes on: into a column, or behind a relation that is joined. -/
theorem result_sortKey_cons (ctx : Context) (mode : SortMode) (name next : String) (more : List String)
    (head : String) (site : SortSite) :
    (sortKey ctx mode name (next :: more) head site).result = do
      ctx.checkDepth site.depth name
      let f ← site.schema.field head name
      if f.isRelation then do
        let related ← (ctx.related f).result
        let config ← sortConfig ctx site.table (site.walked ++ head) f
        let own ← sortClause ctx mode site.table (site.walked ++ head) config
        let (e, joins) ← (sortKey ctx mode name more next
          (site.behind related (site.walked ++ head) config)).result
        return (e, Text.mergeNew own joins)
      else return (← innerExpr ctx site.schema.entity name f (some site.table) (next :: more), []) := by
  simp only [sortKey, Traced.result_bind, Traced.result_liftM]
  congr
  funext _
  congr
  funext f
  cases f.isRelation with
  | false => simp only [Bool.not_false, if_true, Traced.result_bind, Traced.result_liftM]; rfl
  | true =>
    simp only [Bool.not_true, Bool.false_eq_true, if_false, if_true, Traced.result_bind]
    congr
    funext related
    have own : ∀ config : Config, ((if site.walked ++ head ∈ mode.joined then pure [] else do
          let clause ← liftM (ctx.sortRegistry.join ctx.settings site.table config true)
          pure [clause.1] : Traced (List JoinClause)).result) =
        sortClause ctx mode site.table (site.walked ++ head) config := by
      intro config
      unfold sortClause
      split
      · rfl
      · simp only [Traced.result_bind, Traced.result_liftM]
        cases ctx.sortRegistry.join ctx.settings site.table config true <;> rfl
    -- Whether the relation is registered decides on the configuration, and nothing else.
    unfold sortConfig
    cases ctx.sortRegistry.get? (site.walked ++ head) with
    | some config =>
      simp only [← own]
      split <;> simp only [Traced.result_bind, Traced.result_liftM, bind_assoc] <;> rfl
    | none =>
      simp only [Traced.result_bind, Traced.result_liftM, ← own]
      congr
      funext config
      split <;> simp only [Traced.result_bind, Traced.result_liftM, bind_assoc] <;> rfl

/-- A sort's walk that succeeds is one of those listed. -/
theorem keyed_of_sortKey {ctx : Context} {mode : SortMode} {name : String} {rest : List String}
    {head : String} {site : SortSite} {e : Expr} {joins : List JoinClause}
    (ok : (sortKey ctx mode name rest head site).result = .ok (e, joins)) :
    Keyed ctx mode name rest head site e joins := by
  induction rest generalizing head site joins with
  | nil =>
    simp only [result_sortKey_nil, bind_eq_ok] at ok
    obtain ⟨_, shallow, f, found, ok⟩ := ok
    cases column : f.isRelation with
    | true =>
      rw [if_pos column] at ok
      cases ok
    | false =>
      simp only [column, Bool.false_eq_true, if_false, bind_eq_ok] at ok
      obtain ⟨e, expr, ok⟩ := ok
      cases ok
      exact .leaf shallow found column expr
  | cons next more ih =>
    simp only [result_sortKey_cons, bind_eq_ok] at ok
    obtain ⟨_, shallow, f, found, ok⟩ := ok
    cases relation : f.isRelation with
    | false =>
      simp only [relation, Bool.false_eq_true, if_false, bind_eq_ok] at ok
      obtain ⟨lhs, expr, ok⟩ := ok
      cases ok
      exact .inner shallow found relation expr
    | true =>
      simp only [relation, if_true, bind_eq_ok] at ok
      obtain ⟨related, target, config, configured, own, clause, ⟨key, behind⟩, walked, ok⟩ := ok
      cases ok
      exact .joined shallow found relation target configured clause (ih walked)

theorem result_sortTerm (ctx : Context) (mode : SortMode) (schema : Schema) (table : String) (sort : Sorting) :
    (sortTerm ctx mode schema table sort).result =
      match (sortKey ctx mode sort.name sort.path.rest sort.path.head
        { schema, table, walked := "", depth := 0 }).result with
      | .ok (key, joins) => .ok (⟨.expr key, sort.direction⟩, joins)
      | .error (.fieldNotFound entity field path) =>
        if mode.strict then .error (.fieldNotFound entity field path)
        else if isPlainName sort.name then .ok (⟨.verbatim sort.name, sort.direction⟩, [])
        else .error (.malformedSort sort.name)
      | .error e => .error e := by
  simp only [sortTerm, Traced.result_bind, Traced.result_attempt]
  generalize (sortKey ctx mode sort.name sort.path.rest sort.path.head _).result = outcome
  cases outcome with
  | ok x => rfl
  | error e =>
    cases e with
    | fieldNotFound entity field path => cases mode.strict <;> cases isPlainName sort.name <;> rfl
    | _ => rfl

/-- The order term of a sort: the key that its path leads to, or its name as it stands where sorts are
    lenient, no field matches and it is plain. -/
theorem sortTerm_eq_ok {ctx : Context} {mode : SortMode} {schema : Schema} {table : String}
    {sort : Sorting} {x : OrderTerm × List JoinClause}
    (ok : (sortTerm ctx mode schema table sort).result = .ok x) :
    (∃ e, Keyed ctx mode sort.name sort.path.rest sort.path.head
        { schema, table, walked := "", depth := 0 } e x.2 ∧ x.1 = ⟨.expr e, sort.direction⟩) ∨
      (mode.strict = false ∧ isPlainName sort.name = true ∧
        (∃ entity field path, (sortKey ctx mode sort.name sort.path.rest sort.path.head
          { schema, table, walked := "", depth := 0 }).result = .error (.fieldNotFound entity field path)) ∧
        x = (⟨.verbatim sort.name, sort.direction⟩, [])) := by
  rw [result_sortTerm] at ok
  split at ok
  case h_1 key joins walked =>
    cases ok
    exact .inl ⟨key, keyed_of_sortKey walked, rfl⟩
  case h_2 entity field path walked =>
    right
    split at ok
    case isTrue => cases ok
    case isFalse lenient =>
      split at ok
      case isTrue plain =>
        cases ok
        exact ⟨by simpa using lenient, plain, ⟨entity, field, path, walked⟩, rfl⟩
      case isFalse => cases ok
  case h_3 => cases ok

/-! ## Whole queries -/

/-- The fields that are selected: those named, or all that are columns. -/
def selectedFields (schema : Schema) (names : List String) : Except Error (List Field) :=
  if names.isEmpty then .ok schema.columnFields else names.mapM fun name => schema.field name ""

/-- One expression is selected for each field that is no relation. -/
theorem selectList_eq_ok {tr : Localizer} {schema : Schema} {names : List String}
    {table : Option String} {language : Detail} {items : List SelectItem}
    (ok : tr.selectList schema names table language = .ok items) :
    ∃ fields, selectedFields schema names = .ok fields ∧
      List.Forall₂ (fun f s => tr.expr f (some (rootTable schema table)) language = .ok s.expr)
        (fields.filter fun f => !f.isRelation) items := by
  obtain ⟨fields, selected, ok⟩ : ∃ fields, selectedFields schema names = .ok fields ∧
      (fields.filter fun f => !f.isRelation).mapM
        (fun f => tr.selectItem f (some (rootTable schema table)) language) = .ok items := by
    simp only [Localizer.selectList] at ok
    unfold selectedFields
    cases all : names.isEmpty with
    | true =>
      rw [if_pos all] at ok
      exact ⟨_, rfl, ok⟩
    | false =>
      rw [if_neg (by simp [all])] at ok
      exact bind_eq_ok.mp ok
  refine ⟨fields, selected, (mapM_eq_ok.mp ok).imp ?_⟩
  intro f s item
  simp only [Localizer.selectItem, bind_eq_ok] at item
  obtain ⟨e, expr, same⟩ := item
  cases same
  exact expr

theorem result_compileSorts (ctx : Context) (mode : SortMode) (sorts : List Sorting) (subject : Subject)
    (table : Option String) :
    (compileSorts ctx mode sorts subject table).result = do
      let schema ← ctx.schemaOf subject
      let found ← sorts.mapM fun sort => (sortTerm ctx mode schema (rootTable schema table) sort).result
      return ⟨found.map (·.1), Text.mergeNew [] (found.flatMap (·.2))⟩ := by
  simp only [compileSorts, Traced.result_bind, result_describe, Traced.result_mapM, Traced.result_noted]
  rfl

/-- Compiled sorts come from one walk each. -/
theorem compileSorts_eq_ok {ctx : Context} {mode : SortMode} {sorts : List Sorting}
    {subject : Subject} {table : Option String} {part : SortPart}
    (ok : (compileSorts ctx mode sorts subject table).result = .ok part) :
    ∃ schema found, ctx.schemaOf subject = .ok schema ∧
      List.Forall₂ (fun sort x =>
        (sortTerm ctx mode schema (rootTable schema table) sort).result = .ok x) sorts found ∧
      part = ⟨found.map (·.1), Text.mergeNew [] (found.flatMap (·.2))⟩ := by
  simp only [result_compileSorts, bind_eq_ok, mapM_eq_ok] at ok
  obtain ⟨schema, described, found, walked, same⟩ := ok
  exact ⟨schema, found, described, walked, (Except.ok.inj same).symm⟩

/-- What a query is compiled to on the way. -/
structure Stages where
  schema : Schema
  filters : FilterPart
  search : SearchPart
  joins : List JoinClause
  discriminators : List Discriminator
  sorts : SortPart
  select : List SelectItem

namespace Stages

/-- The paths that filters and search go through. -/
def paths (s : Stages) : List String := Text.mergeNew s.filters.paths s.search.paths

/-- The preloads of a query that are joined. -/
def preloads (s : Stages) (ctx : Context) (q : Query) : List String :=
  joinedPreloads ctx s.paths q.preloads

/-- The stages of a query that lead to a compiled one. -/
structure Yield (s : Stages) (ctx : Context) (strict : Bool) (q : Query) (subject : Subject)
    (table : Option String) (c : Compiled) : Prop where
  schema : ctx.schemaOf subject = .ok s.schema
  filters : (compileFilters ctx q.filters subject (some (rootTable s.schema table))).result =
    .ok s.filters
  search : (compileSearch ctx q.term subject (some (rootTable s.schema table))).result =
    .ok s.search
  preloads : checkPreloads s.schema q.preloads = .ok ()
  joins : requestJoins ctx (rootTable s.schema table) s.paths (s.preloads ctx q) =
    .ok (s.joins, s.discriminators)
  sorts : (compileSorts ctx { strict, joined := s.paths } q.sorts subject
    (some (rootTable s.schema table))).result = .ok s.sorts
  select : (if q.fields.isEmpty && (nonEmpty? ctx.language).isNone then .ok []
    else ctx.localizer.selectList s.schema q.fields (some (rootTable s.schema table)) .null) =
      .ok s.select
  level : ∃ level, Log.summaryLevel ctx.settings = .ok level
  compiled : c = {
    table := rootTable s.schema table, filters := s.filters.conditions
    search := s.search.alternatives, discriminators := s.discriminators, order := s.sorts.terms
    select := s.select, joins := Text.mergeNew s.joins s.sorts.joins
    paths := s.paths ++ s.preloads ctx q, preloads := q.preloads, offset := q.offset
    limit := q.limit, requested := ctx.dialect, style := ctx.style
    joinStyle := ctx.sortRegistry.style ctx.settings }

end Stages

/-- A query that is compiled goes through all stages. -/
theorem compileQuery_eq_ok {ctx : Context} {strict : Bool} {q : Query} {subject : Subject}
    {table : Option String} {c : Compiled}
    (ok : (compileQuery ctx strict q subject table).result = .ok c) :
    ∃ s : Stages, s.Yield ctx strict q subject table c := by
  simp only [compileQuery, Traced.result_bind, result_describe, Traced.result_liftM,
    bind_eq_ok] at ok
  obtain ⟨schema, described, filters, filtered, search, searched, _, preloads,
    ⟨joins, discriminators⟩, joined, sorts, sorted, ok⟩ := ok
  -- Whether something is selected is the one branch on the way.
  by_cases whole : (q.fields.isEmpty && (nonEmpty? ctx.language).isNone) = true
  · rw [if_pos whole] at ok
    simp only [Traced.result_bind, Traced.result_pure, Traced.result_liftM, Traced.result_note,
      bind_eq_ok] at ok
    obtain ⟨select, selected, level, levelled, _, _, ok⟩ := ok
    cases ok
    refine ⟨⟨schema, filters, search, joins, discriminators, sorts, select⟩, ?_⟩
    exact ⟨described, filtered, searched, preloads, joined, sorted, by rw [if_pos whole]; exact selected,
      ⟨level, levelled⟩, rfl⟩
  · rw [if_neg whole] at ok
    simp only [Traced.result_bind, Traced.result_pure, Traced.result_liftM, Traced.result_note,
      bind_eq_ok] at ok
    obtain ⟨select, selected, level, levelled, _, _, ok⟩ := ok
    cases ok
    refine ⟨⟨schema, filters, search, joins, discriminators, sorts, select⟩, ?_⟩
    exact ⟨described, filtered, searched, preloads, joined, sorted, by rw [if_neg whole]; exact selected,
      ⟨level, levelled⟩, rfl⟩

namespace Stages.Yield

variable {ctx : Context} {strict : Bool} {q : Query} {subject : Subject} {table : Option String}
  {c : Compiled} {s : Stages}

/-- A query that goes through all stages is compiled. -/
theorem result_eq (yields : s.Yield ctx strict q subject table c) :
    (compileQuery ctx strict q subject table).result = .ok c := by
  obtain ⟨level, levelled⟩ := yields.level
  have select := yields.select
  simp only [compileQuery, Traced.result_bind, result_describe, Traced.result_liftM, bind_eq_ok]
  refine ⟨s.schema, yields.schema, s.filters, yields.filters, s.search, yields.search, (),
    yields.preloads, (s.joins, s.discriminators), yields.joins, s.sorts, yields.sorts, ?_⟩
  by_cases whole : (q.fields.isEmpty && (nonEmpty? ctx.language).isNone) = true
  · rw [if_pos whole] at select ⊢
    simp only [Traced.result_bind, Traced.result_pure, Traced.result_liftM, Traced.result_note,
      bind_eq_ok]
    exact ⟨s.select, select, level, levelled, (), trivial, congrArg _ yields.compiled.symm⟩
  · rw [if_neg whole] at select ⊢
    simp only [Traced.result_bind, Traced.result_pure, Traced.result_liftM, Traced.result_note,
      bind_eq_ok]
    exact ⟨s.select, select, level, levelled, (), trivial, congrArg _ yields.compiled.symm⟩

theorem root (yields : s.Yield ctx strict q subject table c) :
    rootTable s.schema (some c.table) = c.table := by
  rw [yields.compiled]
  exact rootTable_rootTable s.schema table

/-- The filters of a compiled query come from one walk each. -/
theorem walks (yields : s.Yield ctx strict q subject table c) :
    ∃ found : List Narrowing, c.filters = found.map (·.condition) ∧
      List.Forall₂ (fun flt n => (narrow ctx flt flt.path.rest flt.path.head
        (.root s.schema c.table)).result = .ok n) q.filters found := by
  obtain ⟨schema, found, described, walked, same⟩ := compileFilters_eq_ok.mp yields.filters
  cases described.symm.trans yields.schema
  rw [rootTable_rootTable] at walked
  rw [yields.compiled]
  exact ⟨found, by rw [same], walked⟩

/-- The alternatives of a compiled query come from one search, unless there are none. -/
theorem searched (yields : s.Yield ctx strict q subject table c) :
    c.search = s.search.alternatives ∧ (s.search = ⟨[], []⟩ ∨
      Searched ctx q.term (Depth.budget ctx.maxDepth) (.root s.schema c.table)
        s.schema.searchableFields ⟨[], []⟩ s.search) := by
  refine ⟨by rw [yields.compiled], ?_⟩
  rcases compileSearch_eq_ok yields.search with ⟨_, none⟩ | ⟨_, schema, described, searched⟩
  · exact .inl none
  · cases described.symm.trans yields.schema
    rw [rootTable_rootTable] at searched
    rw [yields.compiled]
    exact .inr searched

/-- What holds of the condition of every walk holds of the filters of a compiled query. -/
theorem forall_filters (yields : s.Yield ctx strict q subject table c) {P : Predicate → Prop}
    (each : ∀ {flt : Filter} {n : Narrowing},
      Narrowed ctx flt flt.path.rest flt.path.head (.root s.schema c.table) n → P n.condition) :
    ∀ p ∈ c.filters, P p := by
  intro p member
  obtain ⟨found, same, walks⟩ := yields.walks
  rw [same] at member
  obtain ⟨n, inFound, rfl⟩ := List.mem_map.mp member
  obtain ⟨flt, _, walk⟩ := exists_left_of_forall₂ walks inFound
  exact each (narrowed_of_narrow walk)

/-- What holds of the alternatives of every search from the root holds of those of a compiled query. -/
theorem forall_search (yields : s.Yield ctx strict q subject table c) {P : Predicate → Prop}
    (each : ∀ {part : SearchPart}, Searched ctx q.term (Depth.budget ctx.maxDepth)
      (.root s.schema c.table) s.schema.searchableFields ⟨[], []⟩ part → ∀ p ∈ part.alternatives, P p) :
    ∀ p ∈ c.search, P p := by
  obtain ⟨same, none | searched⟩ := yields.searched
  · simp [same, none]
  · rw [same]
    exact each searched

end Stages.Yield

/-! ## A catalog of books

Small schemas with one relation of each kind, on which hypotheses about compilations are seen to hold.
-/

namespace Books

def author : Schema :=
  { entity := "Author", table := "author"
    fields := [{ name := "Name", column := "name", search := some "%*%" }] }

def tag : Schema :=
  { entity := "Tag", table := "tag"
    fields := [{ name := "Label", column := "label", search := some "*" }] }

def body : Field := { name := "Body", column := "why?", search := some "*%" }

def note : Schema :=
  { entity := "Note", table := "note"
    fields := [body, { name := "Stars", column := "stars", kind := some .int, search := some "*" }] }

def notes : Field :=
  { name := "Notes", column := "Notes", relation := .polymorphic, target := some "Note"
    targetTable := some "note", polymorphic := some "Owner", search := some "*" }

def book : Schema :=
  { entity := "Book", table := "book"
    fields := [{ name := "Title", column := "title", search := some "%*%" },
      { name := "Author", column := "Author", relation := .direct, target := some "Author"
        targetTable := some "author", search := some "*" },
      { name := "Tags", column := "Tags", relation := .manyToMany, target := some "Tag"
        targetTable := some "tag", manyToMany := some "book_tag", search := some "*" },
      notes] }

def schemaOf : Subject → Except Error Schema
  | .entity name => match [author, tag, note, book].find? (·.entity == name) with
    | some schema => .ok schema
    | none => .error (.noTarget name)
  | _ => .error (.noTarget "")

def context : Context := { settings := {}, schemaOf, maxDepth := .int 8 }

end Books

end Compile

end RowQuery
