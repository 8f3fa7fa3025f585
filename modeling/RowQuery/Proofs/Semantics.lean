import RowQuery.Sql.Predicate

/-!
# What conditions mean

The usual meaning of SQL conditions over a database. Truth has three values: a comparison with a null
is unknown, and a row is selected only if its condition is true. A qualified column is looked up in the
innermost enclosing row of its table, one without a table in the innermost row.

Which values there are and how they compare is left to an `Engine`, of which nothing is assumed but
that equality does not depend on the order of its sides.
-/

namespace RowQuery.Sql

/-- True, false, or unknown. -/
abbrev Truth := Option Bool

namespace Truth

/-- Both: false if one is, else unknown if one is. -/
def and : Truth → Truth → Truth
  | some false, _ | _, some false => some false
  | some true, some true => some true
  | _, _ => none

/-- One of both: true if one is, else unknown if one is. -/
def or : Truth → Truth → Truth
  | some true, _ | _, some true => some true
  | some false, some false => some false
  | _, _ => none

/-- One of several. -/
def any (ts : List Truth) : Truth := ts.foldr or (some false)

@[simp] theorem and_eq_true (s t : Truth) : s.and t = some true ↔ s = some true ∧ t = some true := by
  rcases s with _ | _ | _ <;> rcases t with _ | _ | _ <;> decide

@[simp] theorem or_eq_true (s t : Truth) : s.or t = some true ↔ s = some true ∨ t = some true := by
  rcases s with _ | _ | _ <;> rcases t with _ | _ | _ <;> decide

@[simp] theorem any_eq_true (ts : List Truth) : any ts = some true ↔ some true ∈ ts := by
  induction ts with
  | nil => simp [any]
  | cons t ts ih =>
    have step : any (t :: ts) = t.or (any ts) := rfl
    rw [step, or_eq_true, ih, List.mem_cons, eq_comm (a := t)]

end Truth

/-- The values that are not null, and what comparisons and functions do with them. -/
structure Engine (δ : Type) where
  equal : δ → δ → Bool
  equal_comm : ∀ x y, equal x y = equal y x
  /-- The value of a literal. -/
  text : String → δ
  /-- A comparison with a bound value. -/
  compare : Comparison → δ → Value → Bool
  /-- The text at dotted keys of a JSON value, which may be missing. -/
  jsonText : δ → String → Option δ
  /-- The text that a JSON map of languages has for one of them, which may be missing. -/
  language : δ → String → Option δ
  /-- Whether some text of a JSON map of languages matches a pattern. -/
  someLanguage : δ → String → Bool

/-- A row: the value of each column, none if it is null. -/
abbrev Row (δ : Type) := String → Option δ

/-- A database: the rows of each table. -/
abbrev Database (δ : Type) := String → List (Row δ)

/-- The rows that a condition can speak of, the innermost first, each with its table. -/
abbrev Scopes (δ : Type) := List (String × Row δ)

variable {δ : Type}

/-- The value of a column: in the innermost row of its table, or in the innermost row if it has none. -/
def Column.value (scopes : Scopes δ) (c : Column) : Option δ :=
  match c.table with
  | some table => (scopes.find? (·.1 == table)).bind fun scope => scope.2 c.name
  | none => scopes.head?.bind fun scope => scope.2 c.name

/-- The value of an expression. -/
def Expr.value (E : Engine δ) (scopes : Scopes δ) : Expr → Option δ
  | .column c => c.value scopes
  | .jsonText c keys => (c.value scopes).bind (E.jsonText · keys)
  | .language c code => (c.value scopes).bind (E.language · code)

/-- Whether two values are equal, unknown if one is null. -/
def Engine.same (E : Engine δ) (x y : Option δ) : Truth := do return E.equal (← x) (← y)

/-- What a test says of a value. -/
def Test.truth (E : Engine δ) (x : Option δ) : Test → Truth
  | .compare op v => x.map (E.compare op · v)
  | .isNull => some x.isNone
  | .isNotNull => some x.isSome
  | .oneOf vs => Truth.any (vs.map fun v => x.map (E.compare .equal · v))

/-- What a condition says of the rows it stands in. -/
def Predicate.truth (E : Engine δ) (db : Database δ) : Scopes δ → Predicate → Truth
  | scopes, .test lhs t => t.truth E (lhs.value E scopes)
  | scopes, .anyLanguage c found pattern =>
    some (((c.value scopes).any (E.someLanguage · pattern)) == found)
  | scopes, .sameColumn a b => E.same (a.value scopes) (b.value scopes)
  | scopes, .hasText c s => E.same (c.value scopes) (some (E.text s))
  | scopes, .and p q => (p.truth E db scopes).and (q.truth E db scopes)
  | scopes, .or p q => (p.truth E db scopes).or (q.truth E db scopes)
  | scopes, .group p => p.truth E db scopes
  | scopes, .inSelect lhs selected source p =>
    let rows := (db source).filter fun row => p.truth E db ((source, row) :: scopes) = some true
    Truth.any (rows.map fun row =>
      E.same (lhs.value scopes) (selected.value ((source, row) :: scopes)))

/-- A condition that is true, neither false nor unknown. -/
def Predicate.Holds (E : Engine δ) (db : Database δ) (scopes : Scopes δ) (p : Predicate) : Prop :=
  p.truth E db scopes = some true

instance (E : Engine δ) (db : Database δ) (scopes : Scopes δ) (p : Predicate) :
    Decidable (p.Holds E db scopes) := inferInstanceAs (Decidable (_ = some true))

section Holds

variable {E : Engine δ} {db : Database δ} {scopes : Scopes δ}

/-- Two values that are there and equal. -/
def Engine.Same (E : Engine δ) (x y : Option δ) : Prop := E.same x y = some true

theorem Engine.Same.symm {x y : Option δ} (same : E.Same x y) : E.Same y x := by
  cases x with
  | none => cases same
  | some a =>
    cases y with
    | none => cases same
    | some b =>
      have equal : E.same (some a) (some b) = E.same (some b) (some a) :=
        congrArg some (E.equal_comm a b)
      rwa [Engine.Same, ← equal]

theorem Engine.same_comm {x y : Option δ} : E.Same x y ↔ E.Same y x :=
  ⟨Engine.Same.symm, Engine.Same.symm⟩

/-- A null is equal to nothing. -/
theorem Engine.not_same_none (x : Option δ) : ¬ E.Same none x := nofun

@[simp] theorem holds_sameColumn {a b : Column} :
    (Predicate.sameColumn a b).Holds E db scopes ↔ E.Same (a.value scopes) (b.value scopes) := Iff.rfl

@[simp] theorem holds_hasText {c : Column} {s : String} :
    (Predicate.hasText c s).Holds E db scopes ↔ E.Same (c.value scopes) (some (E.text s)) := Iff.rfl

@[simp] theorem holds_someLanguage {c : Column} {pattern : String} :
    (Predicate.anyLanguage c true pattern).Holds E db scopes ↔
      ∃ y, c.value scopes = some y ∧ E.someLanguage y pattern = true := by
  cases value : c.value scopes <;> simp [Predicate.Holds, Predicate.truth, value]

@[simp] theorem holds_noLanguage {c : Column} {pattern : String} :
    (Predicate.anyLanguage c false pattern).Holds E db scopes ↔
      ∀ y, c.value scopes = some y → E.someLanguage y pattern = false := by
  cases value : c.value scopes <;> simp [Predicate.Holds, Predicate.truth, value]

@[simp] theorem holds_and {p q : Predicate} :
    (Predicate.and p q).Holds E db scopes ↔ p.Holds E db scopes ∧ q.Holds E db scopes :=
  Truth.and_eq_true _ _

@[simp] theorem holds_or {p q : Predicate} :
    (Predicate.or p q).Holds E db scopes ↔ p.Holds E db scopes ∨ q.Holds E db scopes :=
  Truth.or_eq_true _ _

@[simp] theorem holds_group {p : Predicate} :
    (Predicate.group p).Holds E db scopes ↔ p.Holds E db scopes := Iff.rfl

/-- A membership in a subselect holds if some row of its table satisfies the condition and has the
    value. -/
@[simp] theorem holds_inSelect {lhs selected : Column} {source : String} {p : Predicate} :
    (Predicate.inSelect lhs selected source p).Holds E db scopes ↔
      ∃ row ∈ db source, p.Holds E db ((source, row) :: scopes) ∧
        E.Same (lhs.value scopes) (selected.value ((source, row) :: scopes)) := by
  simp only [Predicate.Holds, Predicate.truth, Truth.any_eq_true, List.mem_map, List.mem_filter,
    decide_eq_true_eq, and_assoc]
  rfl

@[simp] theorem holds_anyOf {p : Predicate} {ps : List Predicate} :
    (Predicate.anyOf p ps).Holds E db scopes ↔ ∃ q ∈ p :: ps, q.Holds E db scopes := by
  induction ps generalizing p with
  | nil => simp [Predicate.anyOf]
  | cons q qs ih => simp only [Predicate.anyOf, holds_or, ih, List.mem_cons, exists_eq_or_imp]

end Holds

end RowQuery.Sql
