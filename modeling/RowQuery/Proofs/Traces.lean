import RowQuery.Proofs.SearchWalks

/-!
# Traces

What compilations leave beside their results. Every schema in a trace is one that the context gave: where the
schemas of the context are those of a catalog, so are the ones in the trace, also if the compilation fails.
-/

namespace RowQuery.Compile

open RowQuery.Schema RowQuery.Sql RowQuery.Join

namespace Traced

variable {α β : Type} {P : Event → Prop}

/-- A computation all of whose events have a property. -/
def Leaves (P : Event → Prop) (x : Traced α) : Prop := ∀ event ∈ x.events, P event

namespace Leaves

theorem lift (x : Except Error α) : Leaves P (Traced.lift x) := by
  simp [Leaves, Traced.lift]

theorem emit {event : Event} (holds : P event) : Leaves P (Traced.emit event) := by
  simpa [Leaves, Traced.emit] using holds

theorem attempt {x : Traced α} (leaves : Leaves P x) : Leaves P x.attempt := leaves

/-- The events of a computation are those of its parts, the second only if the first succeeds. -/
theorem bind {x : Traced α} {f : α → Traced β} (first : Leaves P x) (next : ∀ a, x.result = .ok a → Leaves P (f a)) :
    Leaves P (x >>= f) := by
  show ∀ event ∈ (x.andThen f).events, P event
  unfold andThen
  cases result : x.result with
  | error e => exact first
  | ok a =>
    intro event member
    rcases List.mem_append.mp member with early | late
    · exact first event early
    · exact next a result event late

theorem mapM {f : α → Traced β} {xs : List α} (each : ∀ a ∈ xs, Leaves P (f a)) : Leaves P (xs.mapM f) := by
  induction xs with
  | nil => exact lift (.ok [])
  | cons a xs ih =>
    rw [List.mapM_cons]
    refine (each a List.mem_cons_self).bind fun b _ => Leaves.bind ?_ fun bs _ => lift (.ok (b :: bs))
    exact ih fun a member => each a (List.mem_cons_of_mem _ member)

theorem foldlM {f : β → α → Traced β} {xs : List α} (step : ∀ b, ∀ a ∈ xs, Leaves P (f b a)) (b : β) :
    Leaves P (xs.foldlM f b) := by
  induction xs generalizing b with
  | nil => exact lift (.ok b)
  | cons a xs ih =>
    rw [List.foldlM_cons]
    refine (step b a List.mem_cons_self).bind fun b' _ => ?_
    exact ih (fun b a member => step b a (List.mem_cons_of_mem _ member)) b'

/-- A record that is left under a condition is left at the end. -/
theorem noted {noted : Bool} {r : Log.Record} (recorded : P (.recorded r)) (a : α) :
    Leaves P (do
      if noted then Traced.note r
      return a) := by
  cases noted with
  | false => exact lift (.ok a)
  | true => exact (emit recorded).bind fun _ _ => lift (.ok a)

end Leaves

end Traced

/-- A schema in a trace is the one that its entity has in a catalog. -/
def Event.From (c : Catalog) : Event → Prop
  | .described schema => c.describe schema.entity = .ok schema
  | .recorded _ => True

variable {ctx : Context} {c : Catalog}

theorem leaves_searchRelation (site : SearchSite) (f : Field) (related : Schema)
    {search : SearchSite → Traced SearchPart} (leaves : ∀ site, (search site).Leaves (Event.From c)) :
    (searchRelation ctx site f related search).Leaves (Event.From c) := by
  simp only [searchRelation]
  split
  · exact (leaves _).bind fun _ _ => .lift _
  · refine (leaves _).bind fun inner _ => ?_
    split
    · exact .lift _
    · exact Traced.Leaves.bind (.lift _) fun _ _ => .lift _

variable (schemas : ctx.Over c)

include schemas

theorem leaves_describe (subject : Subject) : (ctx.describe subject).Leaves (Event.From c) := by
  refine Traced.Leaves.bind (.lift _) fun schema described => ?_
  refine Traced.Leaves.bind (.emit ?_) fun _ _ => .lift _
  have again := schemas.describe_entity described
  rw [schemas] at again
  exact again

theorem leaves_related (f : Field) : (ctx.related f).Leaves (Event.From c) := by
  unfold Context.related
  split
  · exact leaves_describe schemas _
  · exact .lift _

theorem leaves_narrow (flt : Filter) (rest : List String) (head : String) (site : Site) :
    (narrow ctx flt rest head site).Leaves (Event.From c) := by
  induction rest generalizing head site with
  | nil =>
    simp only [narrow]
    refine Traced.Leaves.bind (.lift _) fun _ _ => Traced.Leaves.bind (.lift _) fun f _ => ?_
    split
    · exact .lift _
    · exact Traced.Leaves.bind (.lift _) fun _ _ => .lift _
  | cons next more ih =>
    simp only [narrow]
    refine Traced.Leaves.bind (.lift _) fun _ _ => Traced.Leaves.bind (.lift _) fun f _ => ?_
    split
    · exact Traced.Leaves.bind (.lift _) fun _ _ => Traced.Leaves.bind (.lift _) fun _ _ => .lift _
    · refine (leaves_related schemas f).bind fun related _ => ?_
      split
      · exact (ih _ _).bind fun _ _ => .lift _
      · exact (ih _ _).bind fun _ _ => Traced.Leaves.bind (.lift _) fun _ _ => .lift _

theorem leaves_compileFilters (filters : List Filter) (subject : Subject) (table : Option String) :
    (compileFilters ctx filters subject table).Leaves (Event.From c) := by
  refine (leaves_describe schemas subject).bind fun schema _ => ?_
  refine Traced.Leaves.bind (.mapM fun flt _ => leaves_narrow schemas flt _ _ _) fun found _ => ?_
  exact .noted trivial _

theorem leaves_searchField {term : String} {budget : Nat}
    (inner : ∀ less, budget = less + 1 → ∀ site, (search ctx term less site).Leaves (Event.From c))
    (site : SearchSite) (f : Field) : (searchField ctx term budget site f).Leaves (Event.From c) := by
  unfold searchField
  split
  · exact .lift _
  · refine (leaves_related schemas f).bind fun related _ => ?_
    simp only
    split
    · exact .lift _
    · cases budget with
      | zero => exact .lift _
      | succ less => exact leaves_searchRelation site f related (inner less rfl)

theorem leaves_search (term : String) (budget : Nat) (site : SearchSite) :
    (search ctx term budget site).Leaves (Event.From c) := by
  induction budget generalizing site with
  | zero =>
    rw [search_eq]
    refine Traced.Leaves.foldlM (fun found f _ => ?_) _
    exact (leaves_searchField schemas (by simp) site f).bind fun _ _ => .lift _
  | succ budget ih =>
    rw [search_eq]
    refine Traced.Leaves.foldlM (fun found f _ => ?_) _
    refine (leaves_searchField schemas ?_ site f).bind fun _ _ => .lift _
    rintro less same
    cases same
    exact ih

theorem leaves_compileSearch (term : String) (subject : Subject) (table : Option String) :
    (compileSearch ctx term subject table).Leaves (Event.From c) := by
  unfold compileSearch
  split
  · exact .lift _
  · refine (leaves_describe schemas subject).bind fun schema _ => ?_
    refine (leaves_search schemas term _ _).bind fun part _ => ?_
    exact .noted trivial _

theorem leaves_sortKey (mode : SortMode) (name : String) (rest : List String) (head : String) (site : SortSite) :
    (sortKey ctx mode name rest head site).Leaves (Event.From c) := by
  induction rest generalizing head site with
  | nil =>
    simp only [sortKey]
    refine Traced.Leaves.bind (.lift _) fun _ _ => Traced.Leaves.bind (.lift _) fun f _ => ?_
    split
    · exact .lift _
    · exact Traced.Leaves.bind (.lift _) fun _ _ => .lift _
  | cons next more ih =>
    simp only [sortKey]
    refine Traced.Leaves.bind (.lift _) fun _ _ => Traced.Leaves.bind (.lift _) fun f _ => ?_
    split
    · exact Traced.Leaves.bind (.lift _) fun _ _ => .lift _
    · refine (leaves_related schemas f).bind fun related _ => ?_
      -- the configuration is the registered one or the relation's own; the walk goes on alike
      split
      all_goals
        refine Traced.Leaves.bind (.lift _) fun config _ => ?_
        split
        · exact Traced.Leaves.bind (.lift _) fun _ _ => (ih _ _).bind fun _ _ => .lift _
        · refine Traced.Leaves.bind (.lift _) fun _ _ => ?_
          exact Traced.Leaves.bind (.lift _) fun _ _ => (ih _ _).bind fun _ _ => .lift _

theorem leaves_sortTerm (mode : SortMode) (schema : Schema) (table : String) (sort : Sorting) :
    (sortTerm ctx mode schema table sort).Leaves (Event.From c) := by
  simp only [sortTerm]
  refine Traced.Leaves.bind (leaves_sortKey schemas mode _ _ _ _).attempt fun outcome _ => ?_
  split
  · exact .lift _
  · split
    · exact .lift _
    · split
      · exact .lift _
      · exact .lift _
  · exact .lift _

theorem leaves_compileSorts (mode : SortMode) (sorts : List Sorting) (subject : Subject) (table : Option String) :
    (compileSorts ctx mode sorts subject table).Leaves (Event.From c) := by
  refine (leaves_describe schemas subject).bind fun schema _ => ?_
  refine Traced.Leaves.bind (.mapM fun sort _ => leaves_sortTerm schemas mode _ _ sort) fun found _ => ?_
  exact .noted trivial _

theorem leaves_compileQuery (strict : Bool) (q : Query) (subject : Subject) (table : Option String) :
    (compileQuery ctx strict q subject table).Leaves (Event.From c) := by
  simp only [compileQuery]
  refine (leaves_describe schemas subject).bind fun schema _ => ?_
  refine (leaves_compileFilters schemas _ _ _).bind fun filters _ => ?_
  refine (leaves_compileSearch schemas _ _ _).bind fun search _ => ?_
  refine Traced.Leaves.bind (.lift _) fun _ _ => Traced.Leaves.bind (.lift _) fun _ _ => ?_
  refine (leaves_compileSorts schemas _ _ _ _).bind fun sorts _ => ?_
  split
  all_goals
    refine Traced.Leaves.bind (.lift _) fun _ _ => Traced.Leaves.bind (.lift _) fun _ _ => ?_
    exact Traced.Leaves.bind (.emit trivial) fun _ _ => .lift _

end RowQuery.Compile
