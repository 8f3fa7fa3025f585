import RowQuery.Proofs.Plainness
import RowQuery.Proofs.Reading
import RowQuery.Proofs.Semantics

/-!
# The shape of compiled conditions

`Formed` lists the conditions that there are on the rows of a schema's table, relation by relation, as
the fields of the schema have them. Alternatives stand side by side in the subselect of a direct
relation or of one through a pivot table. In that of a polymorphic relation they are put in brackets,
and two equalities say whose rows are meant.

The condition of a filter and each alternative of a search are of this form. So they have no connective
outside of brackets, and are in standard form throughout.
-/

namespace RowQuery.Sql

namespace Predicate

/-- A condition without connectives outside of brackets that is in standard form. -/
structure Regular (p : Predicate) : Prop where
  atomic : p.isAtomic = true
  standard : p.Standard

/-- Whether there is a subselect in a condition. -/
def hasSelect : Predicate → Bool
  | .inSelect _ _ _ _ => true
  | .and p q => p.hasSelect || q.hasSelect
  | .or p q => p.hasSelect || q.hasSelect
  | .group p => p.hasSelect
  | _ => false

/-- Alternatives as one condition, in brackets if they are several. -/
def enclose : Predicate → List Predicate → Predicate
  | p, [] => p
  | p, q :: qs => .group (.anyOf p (q :: qs))

theorem isOr_of_isAtomic {p : Predicate} (atomic : p.isAtomic = true) : p.isOr = false := by
  cases p with
  | or p q => cases atomic
  | _ => rfl

theorem standard_anyOf {p : Predicate} {ps : List Predicate} (regular : ∀ q ∈ p :: ps, q.Regular) :
    (anyOf p ps).Standard := by
  induction ps generalizing p with
  | nil => exact (regular p (by simp)).standard
  | cons q qs ih =>
    have first := regular p (by simp)
    exact ⟨isOr_of_isAtomic first.atomic, first.standard, ih fun r member => regular r (by simp [member])⟩

theorem regular_enclose {p : Predicate} {ps : List Predicate} (regular : ∀ q ∈ p :: ps, q.Regular) :
    (enclose p ps).Regular := by
  cases ps with
  | nil => exact regular p (by simp)
  | cons q qs => exact ⟨rfl, standard_anyOf regular⟩

theorem hasSelect_anyOf {p : Predicate} {ps : List Predicate}
    (simple : ∀ q ∈ p :: ps, q.hasSelect = false) : (anyOf p ps).hasSelect = false := by
  induction ps generalizing p with
  | nil => exact simple p (by simp)
  | cons q qs ih =>
    have rest := ih (p := q) fun r member => simple r (by simp [member])
    rw [anyOf, hasSelect, simple p (by simp), rest]
    rfl

@[simp] theorem holds_enclose {δ : Type} {E : Engine δ} {db : Database δ} {scopes : Scopes δ}
    {p : Predicate} {ps : List Predicate} :
    (enclose p ps).Holds E db scopes ↔ ∃ q ∈ p :: ps, q.Holds E db scopes := by
  cases ps with
  | nil => simp [enclose]
  | cons q qs => rw [enclose, holds_group, holds_anyOf]

end Predicate

/-- A condition that asks for a row of `source` in which `selected` is equal to `lhs`. On this row one
    of the branches holds, and whichever it is, all restrictions hold with it. -/
def Restricts (p : Predicate) (lhs selected : Column) (source : String)
    (branches restrictions : List Predicate) : Prop :=
  ∀ {δ : Type} (E : Engine δ) (db : Database δ) (scopes : Scopes δ),
    p.Holds E db scopes ↔ ∃ row ∈ db source,
      (∃ q ∈ branches, q.Holds E db ((source, row) :: scopes)) ∧
      (∀ r ∈ restrictions, r.Holds E db ((source, row) :: scopes)) ∧
      E.Same (lhs.value scopes) (selected.value ((source, row) :: scopes))

theorem restricts_enclose (lhs selected : Column) (source : String) (p : Predicate)
    (ps : List Predicate) (r r' : Predicate) :
    Restricts (.inSelect lhs selected source (.and (.and (.enclose p ps) r) r')) lhs selected source
      (p :: ps) [r, r'] := by
  intro δ E db scopes
  simp only [holds_inSelect, holds_and, Predicate.holds_enclose, and_assoc, List.forall_mem_cons,
    List.not_mem_nil, false_imp_iff, implies_true, true_and]

end RowQuery.Sql

namespace RowQuery.Compile

open RowQuery.Schema RowQuery.Sql RowQuery.Join

/-- The conditions on the rows of a table that is described by a schema. -/
inductive Formed (ctx : Context) : Schema → String → Predicate → Prop where
  /-- Columns of the row are compared. -/
  | column {schema : Schema} {table : String} {p : Predicate} (regular : p.Regular)
      (simple : p.hasSelect = false) : Formed ctx schema table p
  /-- A registered relation is left to a join, and rows of its table are compared. -/
  | joined {schema related : Schema} {table path : String} {f : Field} {walked : Option String}
      {config : Config} {p : Predicate}
      (field : f ∈ schema.fields) (target : (ctx.related f).result = .ok related)
      (registered : ctx.registered? walked f.name = some (path, config))
      (behind : Formed ctx related config.table p) : Formed ctx schema table p
  /-- Alternatives behind a relation that is not polymorphic are put into its subselects. -/
  | nested {schema related : Schema} {table : String} {f : Field} {frames : List Frame}
      {p : Predicate} {ps : List Predicate}
      (field : f ∈ schema.fields) (kind : f.relation ≠ .polymorphic)
      (target : (ctx.related f).result = .ok related)
      (framed : Framed ctx.settings f table related.table frames)
      (behind : ∀ q ∈ p :: ps, Formed ctx related related.table q) :
      Formed ctx schema table (Frame.nest frames (.anyOf p ps))
  /-- Alternatives behind a polymorphic relation become one condition without connectives outside of
      brackets, and the two equalities restrict all of them. -/
  | polymorphic {schema related : Schema} {table key idColumn typeColumn : String} {f : Field}
      {p : Predicate} {ps : List Predicate}
      (field : f ∈ schema.fields) (kind : f.relation = .polymorphic)
      (target : (ctx.related f).result = .ok related)
      (named : ctx.settings.keyName = .ok key)
      (id : ctx.settings.keyColumn (Detail.ofText? f.polymorphic) = .ok idColumn)
      (type : ctx.settings.typeColumn (Detail.ofText? f.polymorphic) = .ok typeColumn)
      (behind : ∀ q ∈ p :: ps, Formed ctx related related.table q)
      (atomic : (Predicate.enclose p ps).isAtomic = true)
      (restricts : Restricts (.inSelect (.of table key) (.of related.table idColumn) related.table
          (.and (.and (.enclose p ps) (.sameColumn (.of related.table idColumn) (.of table key)))
            (.hasText (.of related.table typeColumn) table)))
        (.of table key) (.of related.table idColumn) related.table (p :: ps)
        [.sameColumn (.of related.table idColumn) (.of table key),
          .hasText (.of related.table typeColumn) table]) :
      Formed ctx schema table (.inSelect (.of table key) (.of related.table idColumn) related.table
        (.and (.and (.enclose p ps) (.sameColumn (.of related.table idColumn) (.of table key)))
          (.hasText (.of related.table typeColumn) table)))

/-- Conditions of this form are regular. -/
theorem Formed.regular {ctx : Context} {schema : Schema} {table : String} {p : Predicate}
    (formed : Formed ctx schema table p) : p.Regular := by
  induction formed with
  | column regular _ => exact regular
  | joined _ _ _ _ ih => exact ih
  | nested _ kind _ framed _ ih =>
    have standard := Predicate.standard_anyOf ih
    cases framed with
    | direct => exact ⟨rfl, standard⟩
    | pivot => exact ⟨rfl, standard⟩
    | polymorphic polymorphic => exact absurd polymorphic kind
  | polymorphic _ _ _ _ _ _ _ _ _ ih =>
    have inner := Predicate.regular_enclose ih
    exact ⟨rfl, rfl, rfl, ⟨Predicate.isOr_of_isAtomic inner.atomic, rfl, inner.standard, trivial⟩, trivial⟩

/-- A test of a filter compares with at least one value. -/
theorem standard_test {flt : Filter} {kind : Option ColumnKind} {t : Test}
    (ok : flt.test kind = .ok t) : t.Standard := by
  cases Filter.tested_of_test ok with
  | oneOf list read =>
    rintro rfl
    exact flt.rawValues_ne_nil (List.forall₂_nil_right_iff.mp read)
  | _ => trivial

theorem regular_leafCondition {ctx : Context} {flt : Filter} {f : Field} {table : Option String}
    {p : Predicate} (leaf : LeafCondition ctx flt f table p) : p.Regular ∧ p.hasSelect = false := by
  cases leaf with
  | tested _ _ test => exact ⟨⟨rfl, standard_test test⟩, rfl⟩
  | isNull | isNotNull | like | equal | notEqual => exact ⟨⟨rfl, trivial⟩, rfl⟩
  | @oneOf first others across list values =>
    have each : ∀ q ∈ Predicate.anyLanguage { table, name := f.column } true (escapeLike first) ::
        others.map (fun v => .anyLanguage { table, name := f.column } true (escapeLike v)),
        q.Regular ∧ q.hasSelect = false := by
      intro q member
      rcases List.mem_cons.mp member with rfl | member
      · exact ⟨⟨rfl, trivial⟩, rfl⟩
      · obtain ⟨v, _, rfl⟩ := List.mem_map.mp member
        exact ⟨⟨rfl, trivial⟩, rfl⟩
    exact ⟨⟨rfl, Predicate.standard_anyOf fun q member => (each q member).1⟩,
      Predicate.hasSelect_anyOf fun q member => (each q member).2⟩

theorem alternativesCondition_of_ne {f : Field} (kind : f.relation ≠ .polymorphic) (p : Predicate)
    (ps : List Predicate) : alternativesCondition f p ps = .anyOf p ps := by
  simp [alternativesCondition, kind]

theorem alternativesCondition_of_polymorphic {f : Field} (kind : f.relation = .polymorphic)
    (p : Predicate) (ps : List Predicate) : alternativesCondition f p ps = .enclose p ps := by
  cases ps <;> simp [alternativesCondition, kind, Predicate.enclose, Predicate.anyOf]

/-- The subselect of a relation is formed if the alternatives in it are. -/
theorem formed_nest {ctx : Context} {schema related : Schema} {table : String} {f : Field}
    {frames : List Frame} {p : Predicate} {ps : List Predicate} (field : f ∈ schema.fields)
    (target : (ctx.related f).result = .ok related)
    (framed : relationFrames ctx.settings ctx.dialect f table related.table = .ok frames)
    (behind : ∀ q ∈ p :: ps, Formed ctx related related.table q) :
    Formed ctx schema table (Frame.nest frames (alternativesCondition f p ps)) := by
  by_cases kind : f.relation = .polymorphic
  · rw [alternativesCondition_of_polymorphic kind]
    have atomic := (Predicate.regular_enclose fun q member => (behind q member).regular).atomic
    cases framed_of_relationFrames framed with
    | direct other => rw [kind] at other; cases other
    | pivot other => rw [kind] at other; cases other
    | polymorphic _ named id type =>
      exact .polymorphic field kind target named id type behind atomic (restricts_enclose _ _ _ _ _ _ _)
  · rw [alternativesCondition_of_ne kind]
    exact .nested field kind target (framed_of_relationFrames framed) behind

/-- The condition of a filter is formed as its site has it. -/
theorem formed_narrowed {ctx : Context} {flt : Filter} {rest : List String} {head : String}
    {site : Site} {n : Narrowing} (walk : Narrowed ctx flt rest head site n) :
    Formed ctx site.schema site.table n.condition := by
  induction walk with
  | leaf _ _ _ condition =>
    obtain ⟨regular, simple⟩ := regular_leafCondition (leafCondition_eq_ok condition)
    exact .column regular simple
  | inner _ _ _ _ test => exact .column ⟨rfl, standard_test test⟩ rfl
  | joined _ found _ target registered _ ih =>
    obtain ⟨field, rfl⟩ := mem_of_field found
    exact .joined field target registered ih
  | @nested _ _ _ _ f related _ n _ found _ target _ _ framed ih =>
    have single : alternativesCondition f n.condition [] = n.condition := by
      simp [alternativesCondition, Predicate.anyOf]
    have only : ∀ q ∈ [n.condition], Formed ctx related related.table q := by
      intro q member
      cases List.mem_singleton.mp member
      exact ih
    have nested := formed_nest (mem_of_field found).1 target framed only
    rwa [single] at nested

/-- The alternatives of a search are formed as its site has them. -/
theorem formed_searched {ctx : Context} {term : String} {budget : Nat} {site : SearchSite}
    {fields : List Field} {found last : SearchPart}
    (search : Searched ctx term budget site fields found last)
    (known : ∀ f ∈ fields, f ∈ site.schema.fields)
    (before : ∀ p ∈ found.alternatives, Formed ctx site.schema site.table p) :
    ∀ p ∈ last.alternatives, Formed ctx site.schema site.table p := by
  refine search.forall_alternatives
    (P := fun site p => Formed ctx site.schema site.table p) ?_ ?_ ?_ known before
  · intro site f lhs pattern _
    exact .column ⟨rfl, trivial⟩ rfl
  · intro site f related path config p field target registered behind
    exact .joined field target registered behind
  · intro site f related frames p ps field target framed behind
    exact formed_nest field target framed behind

end RowQuery.Compile
