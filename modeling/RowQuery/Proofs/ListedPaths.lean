import Mathlib.Data.List.TakeWhile
import RowQuery.Proofs.RegisteredPaths
import RowQuery.Proofs.SearchCoverage

/-!
# The order of the registered paths

Filters and search list the registered paths that are to be joined. Each list names a path once, and a path
behind another comes after it, so that a join refers to tables that are joined already. What is listed is what
a filter's path crosses and what a search for some column goes through, as far as every relation on the way is
registered.
-/

namespace RowQuery.Compile

open RowQuery.Schema RowQuery.Sql RowQuery.Join

/-! ## Trails -/

/-- Relations that lead from one entity to another, by their names. -/
inductive Trail (ctx : Context) (root : Schema) : List String → Schema → Prop where
  | nil : Trail ctx root [] root
  | snoc {trail : List String} {schema related : Schema} {f : Field} (before : Trail ctx root trail schema)
      (field : f ∈ schema.fields) (relation : f.isRelation = true)
      (target : (ctx.related f).result = .ok related) : Trail ctx root (trail ++ [f.name]) related

/-- What stands before a name in the path of a trail that it ends. -/
def walkedText (trail : List String) : String := if trail = [] then "" else Path.dotted trail ++ "."

theorem dotted_concat {trail : List String} (some : trail ≠ []) (name : String) :
    Path.dotted (trail ++ [name]) = Path.dotted trail ++ "." ++ name := by
  unfold Path.dotted
  induction trail with
  | nil => exact absurd rfl some
  | cons first trail ih =>
    cases trail with
    | nil => simp [String.intercalate_cons_cons, String.intercalate_singleton]
    | cons second trail =>
      rw [List.cons_append, List.cons_append, String.intercalate_cons_cons, String.intercalate_cons_cons,
        ← List.cons_append, ih (by simp)]
      simp only [String.append_assoc]

theorem walkedText_append (trail : List String) (name : String) :
    walkedText trail ++ name = Path.dotted (trail ++ [name]) := by
  unfold walkedText
  split
  case isTrue none => simp [none, Path.dotted, String.intercalate_singleton]
  case isFalse some => rw [dotted_concat some]

theorem walkedText_concat (trail : List String) (name : String) :
    walkedText trail ++ name ++ "." = walkedText (trail ++ [name]) := by
  rw [walkedText_append, walkedText, if_neg (by simp)]

/-- A path is that of a trail from the root, and the path of the trail but for its last name is seen. -/
def Rooted (ctx : Context) (root : Schema) (seen : List String) (path : String) : Prop :=
  ∃ trail name schema, Trail ctx root (trail ++ [name]) schema ∧ path = Path.dotted (trail ++ [name]) ∧
    (trail = [] ∨ Path.dotted trail ∈ seen)

theorem Rooted.mono {ctx : Context} {root : Schema} {seen more : List String} {path : String}
    (rooted : Rooted ctx root seen path) (sub : seen ⊆ more) : Rooted ctx root more path := by
  obtain ⟨trail, name, schema, leads, same, parent⟩ := rooted
  exact ⟨trail, name, schema, leads, same, parent.imp_right fun member => sub member⟩

/-- Each path of a list is rooted in those before it, and in those that are seen already. -/
def Ordered (ctx : Context) (root : Schema) : (seen paths : List String) → Prop
  | _, [] => True
  | seen, path :: paths => Rooted ctx root seen path ∧ Ordered ctx root (path :: seen) paths

namespace Ordered

variable {ctx : Context} {root : Schema} {seen more paths others : List String}

theorem mono (ordered : Ordered ctx root seen paths) (sub : seen ⊆ more) : Ordered ctx root more paths := by
  induction paths generalizing seen more with
  | nil => trivial
  | cons path paths ih => exact ⟨ordered.1.mono sub, ih ordered.2 (List.cons_subset_cons path sub)⟩

theorem append (first : Ordered ctx root seen paths) (second : Ordered ctx root (seen ++ paths) others) :
    Ordered ctx root seen (paths ++ others) := by
  induction paths generalizing seen with
  | nil => simpa using second
  | cons path paths ih =>
    refine ⟨first.1, ih first.2 (second.mono ?_)⟩
    intro p member
    simp only [List.mem_append, List.mem_cons] at member ⊢
    tauto

/-- What is merged is ordered, since what is left out is seen. -/
theorem mergeNew (first : Ordered ctx root seen paths) (second : Ordered ctx root (seen ++ paths) others) :
    Ordered ctx root seen (Text.mergeNew paths others) := by
  unfold Text.mergeNew
  induction others generalizing paths with
  | nil => exact first
  | cons path others ih =>
    rw [List.foldl_cons]
    by_cases member : path ∈ paths
    · rw [if_pos member]
      refine ih first (second.2.mono ?_)
      exact List.cons_subset.mpr ⟨List.mem_append_right _ member, List.Subset.refl _⟩
    · rw [if_neg member]
      refine ih (first.append ⟨second.1, trivial⟩) (second.2.mono ?_)
      intro p inside
      simp only [List.mem_append, List.mem_cons] at inside ⊢
      tauto

theorem rooted (ordered : Ordered ctx root seen paths) {before after : List String} {path : String}
    (split : paths = before ++ path :: after) : Rooted ctx root (seen ++ before) path := by
  induction before generalizing seen paths with
  | nil =>
    subst split
    simpa using ordered.1
  | cons p before ih =>
    subst split
    refine (ih ordered.2 rfl).mono ?_
    intro q member
    simp only [List.cons_append, List.mem_append, List.mem_cons] at member ⊢
    tauto

end Ordered

/-! ## The order of what is listed -/

section Walks

variable {ctx : Context} {root : Schema}

/-- Where a walk has got to on registered relations: behind a trail from the root whose path is seen. -/
structure Reached (ctx : Context) (root : Schema) (seen : List String) (schema : Schema) (walked : String)
    (trail : List String) : Prop where
  leads : Trail ctx root trail schema
  text : walked = walkedText trail
  listed : trail = [] ∨ Path.dotted trail ∈ seen

theorem Reached.start (ctx : Context) (schema : Schema) (seen : List String) :
    Reached ctx schema seen schema "" [] := ⟨.nil, rfl, .inl rfl⟩

variable {seen : List String} {schema related : Schema} {walked : String} {trail : List String} {f : Field}

theorem Reached.rooted (reached : Reached ctx root seen schema walked trail) (field : f ∈ schema.fields)
    (relation : f.isRelation = true) (target : (ctx.related f).result = .ok related) :
    Rooted ctx root seen (walked ++ f.name) := by
  refine ⟨trail, f.name, related, .snoc reached.leads field relation target, ?_, reached.listed⟩
  rw [reached.text, walkedText_append]

theorem Reached.step (reached : Reached ctx root seen schema walked trail) (field : f ∈ schema.fields)
    (relation : f.isRelation = true) (target : (ctx.related f).result = .ok related) :
    Reached ctx root ((walked ++ f.name) :: seen) related (walked ++ f.name ++ ".") (trail ++ [f.name]) := by
  refine ⟨.snoc reached.leads field relation target, ?_, .inr ?_⟩
  · rw [reached.text, walkedText_concat]
  · rw [reached.text, walkedText_append]
    exact List.mem_cons_self

/-- A filter lists the relations that it crosses in the order in which it crosses them. -/
theorem ordered_narrowed {flt : Filter} {rest : List String} {head : String} {site : Site} {n : Narrowing}
    (walk : Narrowed ctx flt rest head site n) {seen : List String}
    (reached : ∀ walked, site.walked = some walked → ∃ trail, Reached ctx root seen site.schema walked trail) :
    Ordered ctx root seen n.paths := by
  induction walk generalizing seen with
  | leaf => trivial
  | inner => trivial
  | joined shallow found relation target registered rest ih =>
    obtain ⟨walked, isWalked, rfl, _⟩ := registered?_eq_some.mp registered
    obtain ⟨field, rfl⟩ := mem_of_field found
    obtain ⟨trail, here⟩ := reached walked isWalked
    refine ⟨here.rooted field relation target, ih ?_⟩
    intro next isNext
    cases isNext
    exact ⟨_, here.step field relation target⟩
  | nested shallow found relation target unregistered rest framed ih => exact ih nofun

theorem Sought.bears {walked path : String} (sought : Sought ctx walked f path) : Bears ctx f := by
  induction sought with
  | here relation target _ searchable bears => exact .relation relation target searchable bears
  | behind relation target _ searchable _ ih => exact .relation relation target searchable ih

theorem Sought.isRegistered_path {walked path : String} (sought : Sought ctx walked f path) :
    ctx.isRegistered path = true := by
  induction sought with
  | here _ _ registered => exact registered
  | behind _ _ _ _ _ ih => exact ih

/-- A search that finds nothing lists nothing. -/
theorem paths_eq_nil_of_searched {term : String} {budget : Nat} {site : SearchSite} {fields : List Field}
    {part : SearchPart} (search : Searched ctx term budget site fields ⟨[], []⟩ part)
    (none : part.alternatives = []) : part.paths = [] := by
  apply List.eq_nil_iff_forall_not_mem.mpr
  intro path member
  obtain ⟨walked, _, f, field, sought⟩ := ((mem_paths_searched search).mp member).resolve_left List.not_mem_nil
  exact (alternatives_searched search).mpr (.inr ⟨f, field, sought.bears⟩) none

/-- A search lists a relation before those behind it. -/
theorem ordered_searched {term : String} {budget : Nat} {site : SearchSite} {fields : List Field}
    {found last : SearchPart} (search : Searched ctx term budget site fields found last)
    (known : ∀ f ∈ fields, f ∈ site.schema.fields) {seen : List String}
    (reached : ∀ walked, site.walked = some walked → ∃ trail, Reached ctx root seen site.schema walked trail)
    (before : Ordered ctx root seen found.paths) : Ordered ctx root seen last.paths := by
  induction search generalizing seen with
  | done => exact before
  | column plain searched rest ih =>
    obtain ⟨lhs, expr, rfl⟩ := searchColumn_eq_ok searched
    exact ih (fun f member => known f (List.mem_cons_of_mem _ member)) reached (before.mergeNew trivial)
  | joined relation target fresh registered behind rest ihBehind ih =>
    obtain ⟨walked, isWalked, rfl, _⟩ := registered?_eq_some.mp registered
    obtain ⟨trail, here⟩ := reached walked isWalked
    have field := known _ List.mem_cons_self
    refine ih (fun f member => known f (List.mem_cons_of_mem _ member)) reached (before.mergeNew ?_)
    refine Ordered.mono ?_ (List.subset_append_left seen _)
    unfold SearchPart.behindPath
    split
    case isTrue none =>
      rw [paths_eq_nil_of_searched behind (by simpa using none)]
      trivial
    case isFalse =>
      refine Ordered.mergeNew ⟨here.rooted field relation target, trivial⟩ ?_
      refine (ihBehind (fun f => List.mem_of_mem_filter) ?_ trivial).mono (List.perm_append_singleton _ _).symm.subset
      intro next isNext
      cases isNext
      exact ⟨_, here.step field relation target⟩
  | barren relation target fresh unregistered behind rest ihBehind ih =>
    refine ih (fun f member => known f (List.mem_cons_of_mem _ member)) reached (before.mergeNew ?_)
    exact (ihBehind (fun f => List.mem_of_mem_filter) nofun trivial).mono (List.subset_append_left seen _)
  | nested relation target fresh unregistered behind framed rest ihBehind ih =>
    refine ih (fun f member => known f (List.mem_cons_of_mem _ member)) reached (before.mergeNew ?_)
    exact (ihBehind (fun f => List.mem_of_mem_filter) nofun trivial).mono (List.subset_append_left seen _)

end Walks

/-! ## What is listed -/

/-- Names of relations that lead on from an entity one behind the other, as a path crosses them. -/
inductive Crosses (ctx : Context) : Schema → List String → Prop where
  | nil {schema : Schema} : Crosses ctx schema []
  | cons {schema related : Schema} {head : String} {names : List String} {f : Field}
      (found : schema.get? head = some f) (relation : f.isRelation = true)
      (target : (ctx.related f).result = .ok related) (rest : Crosses ctx related names) :
      Crosses ctx schema (head :: names)

/-- Behind some relations, every path on the way along a trail is registered, that of the trail included. -/
def RegisteredAlong (ctx : Context) (before trail : List String) : Prop :=
  ∀ part, part ≠ [] → part <+: trail → ctx.isRegistered (Path.dotted (before ++ part)) = true

section Listed

variable {ctx : Context} {before : List String}

theorem registeredAlong_nil : RegisteredAlong ctx before [] := by
  intro part some within
  exact absurd (List.prefix_nil.mp within) some

theorem registeredAlong_cons {name : String} {trail : List String} :
    RegisteredAlong ctx before (name :: trail) ↔
      ctx.isRegistered (Path.dotted (before ++ [name])) = true ∧
        RegisteredAlong ctx (before ++ [name]) trail := by
  constructor
  · intro along
    refine ⟨along [name] (by simp) (by simp), ?_⟩
    intro part some within
    rw [List.append_assoc]
    exact along (name :: part) (by simp) (List.cons_prefix_cons.mpr ⟨rfl, within⟩)
  · rintro ⟨first, along⟩ part some within
    cases part with
    | nil => exact absurd rfl some
    | cons head part =>
      obtain ⟨rfl, inner⟩ := List.cons_prefix_cons.mp within
      cases part with
      | nil => exact first
      | cons next part =>
        have later := along (next :: part) (by simp) inner
        rwa [List.append_assoc] at later

theorem crosses_cons {schema : Schema} {head : String} {names : List String} :
    Crosses ctx schema (head :: names) ↔ ∃ f related, schema.get? head = some f ∧ f.isRelation = true ∧
      (ctx.related f).result = .ok related ∧ Crosses ctx related names := by
  constructor
  · intro crosses
    cases crosses with
    | cons found relation target rest => exact ⟨_, _, found, relation, target, rest⟩
  · rintro ⟨f, related, found, relation, target, rest⟩
    exact .cons found relation target rest

/-- A path crosses a relation at its start, behind which it goes on, or none. -/
theorem crossed_cons (next head : String) (rest : List String) (schema : Schema) (walked : String) :
    (crossed ctx (next :: rest) head schema walked = [] ∧ ∀ names, ¬Crosses ctx schema (head :: names)) ∨
      ∃ related, crossed ctx (next :: rest) head schema walked =
          (walked ++ head) :: crossed ctx rest next related (walked ++ head ++ ".") ∧
        ∀ names, Crosses ctx schema (head :: names) ↔ Crosses ctx related names := by
  cases found : schema.get? head with
  | none => exact .inl ⟨by simp [crossed, found], by simp [crosses_cons, found]⟩
  | some f =>
    cases relation : f.isRelation with
    | false => exact .inl ⟨by simp [crossed, found, relation], by simp [crosses_cons, found, relation]⟩
    | true =>
      cases target : (ctx.related f).result with
      | error e =>
        exact .inl ⟨by simp [crossed, found, relation, target], by simp [crosses_cons, found, target]⟩
      | ok related =>
        exact .inr ⟨related, by simp [crossed, found, relation, target],
          by simp [crosses_cons, found, relation, target]⟩

/-- A path is crossed by another on registered relations only. -/
theorem mem_crossed_iff {rest : List String} {head : String} {schema : Schema} {path : String} :
    path ∈ (crossed ctx rest head schema (walkedText before)).takeWhile ctx.isRegistered ↔
      ∃ trail, trail ≠ [] ∧ path = Path.dotted (before ++ trail) ∧ RegisteredAlong ctx before trail ∧
        ∃ more, more ≠ [] ∧ head :: rest = trail ++ more ∧ Crosses ctx schema trail := by
  induction rest generalizing head schema before with
  | nil =>
    constructor
    · intro member
      cases member
    · rintro ⟨trail, some, _, _, more, others, split, _⟩
      have lengths := congrArg List.length split
      rw [List.length_append] at lengths
      have := List.length_pos_of_ne_nil some
      have := List.length_pos_of_ne_nil others
      simp only [List.length_singleton] at lengths
      omega
  | cons next rest ih =>
    rcases crossed_cons next head rest schema (walkedText before) with ⟨none, away⟩ | ⟨related, same, crosses⟩
    · rw [none]
      constructor
      · intro member
        cases member
      · rintro ⟨trail, some, _, _, more, _, split, leads⟩
        cases trail with
        | nil => exact absurd rfl some
        | cons first trail =>
          obtain ⟨rfl, _⟩ := List.cons.inj split
          exact absurd leads (away trail)
    · rw [same, walkedText_concat, walkedText_append, List.takeWhile_cons]
      constructor
      · intro member
        split at member
        case isFalse => cases member
        case isTrue registered =>
          rcases List.mem_cons.mp member with rfl | later
          · exact ⟨[head], by simp, rfl, registeredAlong_cons.mpr ⟨registered, registeredAlong_nil⟩,
              next :: rest, by simp, rfl, (crosses []).mpr .nil⟩
          · obtain ⟨trail, some, isPath, along, more, others, split, leads⟩ := ih.mp later
            exact ⟨head :: trail, by simp, by simpa using isPath, registeredAlong_cons.mpr ⟨registered, along⟩,
              more, others, by simp [split], (crosses trail).mpr leads⟩
      · rintro ⟨trail, some, isPath, along, more, others, split, leads⟩
        cases trail with
        | nil => exact absurd rfl some
        | cons first trail =>
          obtain ⟨rfl, splitRest⟩ := List.cons.inj split
          obtain ⟨registered, along⟩ := registeredAlong_cons.mp along
          rw [if_pos registered]
          cases trail with
          | nil => exact isPath ▸ List.mem_cons_self
          | cons second trail =>
            refine List.mem_cons_of_mem _ (ih.mpr ⟨second :: trail, by simp, by simpa using isPath, along, more,
              others, splitRest, (crosses _).mp leads⟩)

theorem reaches_iff_exists {schemaOf : Subject → Except Error Schema} {fields trail : List Field} {g : Field} :
    Reaches schemaOf fields trail g ↔ ∃ f ∈ fields, Reaches schemaOf [f] trail g := by
  constructor
  · intro reaches
    cases reaches with
    | here member plain => exact ⟨_, member, .here (by simp) plain⟩
    | across member relation target described behind =>
      exact ⟨_, member, .across (by simp) relation target described behind⟩
  · rintro ⟨f, member, reaches⟩
    cases reaches with
    | here same plain => exact .here (List.mem_singleton.mp same ▸ member) plain
    | across same relation target described behind =>
      exact .across (List.mem_singleton.mp same ▸ member) relation target described behind

theorem reaches_trail_iff {schemaOf : Subject → Except Error Schema} {fields trail : List Field} {f g : Field} :
    Reaches schemaOf fields (f :: trail) g ↔ f ∈ fields ∧ ∃ next related, f.isRelation = true ∧
      f.target = some next ∧ schemaOf (.entity next) = .ok related ∧
      Reaches schemaOf related.searchableFields trail g := by
  constructor
  · intro reaches
    cases reaches with
    | across member relation target described behind =>
      exact ⟨member, _, _, relation, target, described, behind⟩
  · rintro ⟨member, next, related, relation, target, described, behind⟩
    exact .across member relation target described behind

theorem bears_of_reaches {fields trail : List Field} {g : Field}
    (reaches : Reaches ctx.schemaOf fields trail g) : ∃ f ∈ fields, Bears ctx f := by
  induction reaches with
  | here member plain => exact ⟨_, member, .column plain⟩
  | across member relation target described behind ih =>
    obtain ⟨g, searchable, bears⟩ := ih
    exact ⟨_, member, .relation relation (related_eq_ok.mpr ⟨_, target, described⟩) searchable bears⟩

theorem exists_reaches_of_bears {f : Field} (bears : Bears ctx f) :
    ∃ trail g, Reaches ctx.schemaOf [f] trail g := by
  induction bears with
  | @column f plain => exact ⟨[], f, .here (by simp) plain⟩
  | relation relation target searchable behind ih =>
    obtain ⟨trail, g, reaches⟩ := ih
    obtain ⟨next, isTarget, described⟩ := related_eq_ok.mp target
    exact ⟨_, g, .across (by simp) relation isTarget described (reaches_iff_exists.mpr ⟨_, searchable, reaches⟩)⟩

/-- A search goes through the path of a relation exactly if the relations on the way are registered and a
    column lies behind it. -/
theorem sought_iff {f : Field} {path : String} :
    Sought ctx (walkedText before) f path ↔ ∃ fields below g,
      path = Path.dotted (before ++ (f :: fields).map (·.name)) ∧
        RegisteredAlong ctx before ((f :: fields).map (·.name)) ∧
        Reaches ctx.schemaOf [f] (f :: fields ++ below) g := by
  constructor
  · intro sought
    generalize isWalked : walkedText before = walked at sought
    induction sought generalizing before with
    | @here walked f g related relation target registered searchable bears =>
      subst isWalked
      obtain ⟨below, last, reaches⟩ := exists_reaches_of_bears bears
      obtain ⟨next, isTarget, described⟩ := related_eq_ok.mp target
      rw [walkedText_append] at registered ⊢
      exact ⟨[], below, last, rfl, registeredAlong_cons.mpr ⟨registered, registeredAlong_nil⟩,
        .across (by simp) relation isTarget described (reaches_iff_exists.mpr ⟨g, searchable, reaches⟩)⟩
    | @behind walked path f g related relation target registered searchable inner ih =>
      subst isWalked
      obtain ⟨fields, below, last, isPath, along, reaches⟩ := ih (walkedText_concat before f.name).symm
      obtain ⟨next, isTarget, described⟩ := related_eq_ok.mp target
      rw [walkedText_append] at registered
      exact ⟨g :: fields, below, last, by simpa using isPath, registeredAlong_cons.mpr ⟨registered, along⟩,
        .across (by simp) relation isTarget described (reaches_iff_exists.mpr ⟨g, searchable, reaches⟩)⟩
  · rintro ⟨fields, below, g, rfl, along, reaches⟩
    induction fields generalizing before f with
    | nil =>
      have registered := (registeredAlong_cons.mp along).1
      obtain ⟨_, next, related, relation, isTarget, described, behind⟩ := reaches_trail_iff.mp reaches
      obtain ⟨g, searchable, bears⟩ := bears_of_reaches behind
      rw [← walkedText_append] at registered
      rw [List.map_singleton, ← walkedText_append]
      exact .here relation (related_eq_ok.mpr ⟨next, isTarget, described⟩) registered searchable bears
    | cons second fields ih =>
      obtain ⟨registered, along⟩ := registeredAlong_cons.mp along
      obtain ⟨_, next, related, relation, isTarget, described, behind⟩ := reaches_trail_iff.mp reaches
      obtain ⟨searchable, more⟩ := reaches_trail_iff.mp behind
      have inner := ih along (reaches_trail_iff.mpr ⟨List.mem_singleton_self second, more⟩)
      rw [← walkedText_concat] at inner
      rw [← walkedText_append] at registered
      rw [List.map_cons, List.append_cons]
      exact .behind relation (related_eq_ok.mpr ⟨next, isTarget, described⟩) registered searchable inner

/-- A path is to be joined for some filters and a search term: every relation on the way to it is registered,
    and a filter's path crosses it, or it leads along searchable relations to a searchable column. -/
def Listed (ctx : Context) (root : Schema) (filters : List Filter) (term path : String) : Prop :=
  ∃ trail, trail ≠ [] ∧ path = Path.dotted trail ∧ RegisteredAlong ctx [] trail ∧
    ((∃ flt ∈ filters, ∃ more, more ≠ [] ∧ flt.path.segments = trail ++ more ∧ Crosses ctx root trail) ∨
      (term ≠ "" ∧ ∃ fields below g, trail = fields.map (·.name) ∧
        Reaches ctx.schemaOf root.searchableFields (fields ++ below) g))

variable {subject : Subject} {schema : Schema} {filters : List Filter} {term : String}
  {table : Option String} {fp : FilterPart} {sp : SearchPart}

theorem mem_mergeNew_iff_listed (described : ctx.schemaOf subject = .ok schema)
    (filtered : (compileFilters ctx filters subject table).result = .ok fp) {other : Option String}
    (searched : (compileSearch ctx term subject other).result = .ok sp) {path : String} :
    path ∈ Text.mergeNew fp.paths sp.paths ↔ Listed ctx schema filters term path := by
  rw [Text.mem_mergeNew, mem_paths_compileFilters described filtered, mem_paths_compileSearch described searched]
  have start : walkedText [] = "" := rfl
  constructor
  · rintro (⟨flt, member, crosses⟩ | ⟨asked, f, searchable, sought⟩)
    · rw [← start] at crosses
      obtain ⟨trail, some, isPath, along, more, others, split, leads⟩ := mem_crossed_iff.mp crosses
      exact ⟨trail, some, isPath, along, .inl ⟨flt, member, more, others, split, leads⟩⟩
    · rw [← start] at sought
      obtain ⟨fields, below, g, isPath, along, reaches⟩ := sought_iff.mp sought
      refine ⟨_, ?_, isPath, along, .inr ⟨asked, f :: fields, below, g, rfl,
        reaches_iff_exists.mpr ⟨f, searchable, reaches⟩⟩⟩
      simp
  · rintro ⟨trail, some, isPath, along, ⟨flt, member, more, others, split, leads⟩ |
      ⟨asked, fields, below, g, rfl, reaches⟩⟩
    · refine .inl ⟨flt, member, ?_⟩
      rw [← start]
      exact mem_crossed_iff.mpr ⟨trail, some, isPath, along, more, others, split, leads⟩
    · cases fields with
      | nil => exact absurd rfl some
      | cons f fields =>
        obtain ⟨searchable, leads⟩ := reaches_trail_iff.mp reaches
        refine .inr ⟨asked, f, searchable, ?_⟩
        rw [← start]
        exact sought_iff.mpr ⟨fields, below, g, isPath, along,
          reaches_trail_iff.mpr ⟨List.mem_singleton_self f, leads⟩⟩

end Listed

/-! ## Whole lists -/

/-- A context whose entities have no dots in the names of their fields. -/
def Dotless (ctx : Context) : Prop :=
  ∀ subject schema, ctx.schemaOf subject = .ok schema → ∀ f ∈ schema.fields, '.' ∉ f.name.toList

/-- A list of paths that can be joined one after the other. -/
structure Sound (ctx : Context) (root : Schema) (paths : List String) : Prop where
  nodup : paths.Nodup
  registered : ∀ path ∈ paths, ctx.isRegistered path = true
  /-- Each path is that of a trail of relations, and the path of the trail before its last relation is listed
      before it. -/
  rooted : ∀ before path after, paths = before ++ path :: after → Rooted ctx root before path
  /-- By the texts: what stands before the last dot of a path is listed before it. -/
  parents : Dotless ctx → ∀ before path after, paths = before ++ path :: after →
    ∀ parent name, path = parent ++ "." ++ name → '.' ∉ name.toList → parent ∈ before

section Whole

variable {ctx : Context} {root schema : Schema}

theorem Trail.described {subject : Subject} (described : ctx.schemaOf subject = .ok root) {trail : List String}
    (leads : Trail ctx root trail schema) : ∃ subject, ctx.schemaOf subject = .ok schema := by
  cases leads with
  | nil => exact ⟨subject, described⟩
  | snoc before field relation target =>
    obtain ⟨next, _, described⟩ := related_eq_ok.mp target
    exact ⟨_, described⟩

theorem Trail.dotless (dotless : Dotless ctx) {subject : Subject} (described : ctx.schemaOf subject = .ok root)
    {trail : List String} (leads : Trail ctx root trail schema) : ∀ name ∈ trail, '.' ∉ name.toList := by
  induction leads with
  | nil => simp
  | snoc before field relation target ih =>
    obtain ⟨subject, described⟩ := before.described described
    intro name member
    rcases List.mem_append.mp member with earlier | last
    · exact ih name earlier
    · rw [List.mem_singleton.mp last]
      exact dotless subject _ described _ field

/-- Where a character stands last in a text, what stands before it is determined. -/
theorem before_eq_of_last {c : Char} {before before' after after' : List Char} (last : c ∉ after)
    (last' : c ∉ after') (same : before ++ c :: after = before' ++ c :: after') : before = before' := by
  rcases List.append_eq_append_iff.mp same with ⟨between, rfl, rest⟩ | ⟨between, rfl, rest⟩
  · cases between with
    | nil => simp
    | cons d between =>
      obtain ⟨rfl, rfl⟩ := List.cons.inj rest
      simp at last
  · cases between with
    | nil => simp
    | cons d between =>
      obtain ⟨rfl, rfl⟩ := List.cons.inj rest
      simp at last'

/-- The last dot of a path divides its trail before the last name. -/
theorem parent_of_dotted {trail : List String} {last parent name : String} (plain : '.' ∉ last.toList)
    (plainName : '.' ∉ name.toList) (same : Path.dotted (trail ++ [last]) = parent ++ "." ++ name) :
    trail ≠ [] ∧ parent = Path.dotted trail := by
  by_cases none : trail = []
  · rw [none, List.nil_append, Path.dotted, String.intercalate_singleton] at same
    simp [same] at plain
  · rw [dotted_concat none] at same
    have texts := congrArg String.toList same
    simp only [String.toList_append, List.append_assoc] at texts
    exact ⟨none, (String.toList_inj.mp (before_eq_of_last plain plainName texts)).symm⟩

theorem Rooted.parent_mem (dotless : Dotless ctx) {subject : Subject} (described : ctx.schemaOf subject = .ok root)
    {seen : List String} {path parent name : String} (rooted : Rooted ctx root seen path)
    (same : path = parent ++ "." ++ name) (plain : '.' ∉ name.toList) : parent ∈ seen := by
  obtain ⟨trail, last, schema, leads, isPath, listed⟩ := rooted
  have plainLast := leads.dotless dotless described last (by simp)
  obtain ⟨some, isParent⟩ := parent_of_dotted plainLast plain (isPath.symm.trans same)
  rw [isParent]
  exact listed.resolve_left some

/-- An ordered list of registered paths without repetitions is sound. -/
theorem sound_of_ordered {subject : Subject} (described : ctx.schemaOf subject = .ok root) {paths : List String}
    (nodup : paths.Nodup) (registered : ∀ path ∈ paths, ctx.isRegistered path = true)
    (ordered : Ordered ctx root [] paths) : Sound ctx root paths where
  nodup := nodup
  registered := registered
  rooted := fun _ _ _ split => ordered.rooted split
  parents := fun dotless _ _ _ split _ _ same plain => (ordered.rooted split).parent_mem dotless described same plain

variable {subject : Subject} {table : Option String} {filters : List Filter} {term : String}

theorem ordered_compileFilters {part : FilterPart} (described : ctx.schemaOf subject = .ok root)
    (ok : (compileFilters ctx filters subject table).result = .ok part) : Ordered ctx root [] part.paths := by
  obtain ⟨_, found, again, walks, rfl⟩ := compileFilters_eq_ok.mp ok
  cases described.symm.trans again
  have each : ∀ n ∈ found, Ordered ctx root [] n.paths := by
    intro n member
    obtain ⟨flt, _, walk⟩ := exists_left_of_forall₂ walks member
    refine ordered_narrowed (narrowed_of_narrow walk) ?_
    intro walked isWalked
    cases isWalked
    exact ⟨[], .start ctx root []⟩
  refine Ordered.mergeNew trivial ?_
  clear walks ok
  induction found with
  | nil => trivial
  | cons n found ih =>
    rw [List.flatMap_cons]
    have rest := ih fun n member => each n (List.mem_cons_of_mem _ member)
    exact (each n List.mem_cons_self).append (rest.mono (List.nil_subset _))

theorem ordered_compileSearch {part : SearchPart} (described : ctx.schemaOf subject = .ok root)
    (ok : (compileSearch ctx term subject table).result = .ok part) : Ordered ctx root [] part.paths := by
  rcases compileSearch_eq_ok ok with ⟨_, rfl⟩ | ⟨_, _, again, searched⟩
  · trivial
  · cases described.symm.trans again
    refine ordered_searched searched (fun f => List.mem_of_mem_filter) ?_ trivial
    intro walked isWalked
    cases isWalked
    exact ⟨[], .start ctx root []⟩

theorem nodup_searched {budget : Nat} {site : SearchSite} {fields : List Field} {found last : SearchPart}
    (search : Searched ctx term budget site fields found last) (before : found.paths.Nodup) : last.paths.Nodup := by
  induction search with
  | done => exact before
  | column _ _ _ ih => exact ih (Text.nodup_mergeNew before _)
  | joined _ _ _ _ _ _ _ ih => exact ih (Text.nodup_mergeNew before _)
  | barren _ _ _ _ _ _ _ ih => exact ih (Text.nodup_mergeNew before _)
  | nested _ _ _ _ _ _ _ _ ih => exact ih (Text.nodup_mergeNew before _)

theorem nodup_compileSearch {part : SearchPart} (ok : (compileSearch ctx term subject table).result = .ok part) :
    part.paths.Nodup := by
  rcases compileSearch_eq_ok ok with ⟨_, rfl⟩ | ⟨_, _, _, searched⟩
  · exact List.nodup_nil
  · exact nodup_searched searched List.nodup_nil

theorem nodup_compileFilters {part : FilterPart} (ok : (compileFilters ctx filters subject table).result = .ok part) :
    part.paths.Nodup := by
  obtain ⟨_, found, _, _, rfl⟩ := compileFilters_eq_ok.mp ok
  exact Text.nodup_mergeNew List.nodup_nil _

theorem Listed.isRegistered {path : String} (listed : Listed ctx root filters term path) :
    ctx.isRegistered path = true := by
  obtain ⟨trail, some, rfl, along, _⟩ := listed
  exact along trail some List.prefix_rfl

/-- The joins of a request fail as one of the configurations does; all of them are found. -/
theorem fails_requestJoins {P : Error → Prop} {base : String} {paths : List String}
    (registered : ∀ path ∈ paths, ctx.isRegistered path = true)
    (each : ∀ r ∈ ctx.registry, ∀ path config, r.get? path = some config → ∀ inlined,
      Fails P (r.join ctx.settings base config inlined)) (preloads : List String) :
    Fails P (requestJoins ctx base paths (joinedPreloads ctx paths preloads)) := by
  unfold requestJoins
  split
  · exact .ok _
  case h_2 r isRegistry =>
    refine (Registry.fails_joins ?_).bind fun _ _ => (Registry.fails_joins ?_).bind fun _ _ => .ok _
    · intro path member
      obtain ⟨config, known⟩ := isRegistered_iff.mp (registered path member)
      rw [Context.config?, isRegistry] at known
      exact ⟨config, known, each r isRegistry path config known false⟩
    · intro path member
      have known := (List.mem_filter.mp member).2
      rw [isRegistry, Option.elim_some, Bool.and_eq_true] at known
      obtain ⟨config, known⟩ := Option.isSome_iff_exists.mp known.1
      exact ⟨config, known, each r isRegistry path config known true⟩

end Whole

/-- The paths that are joined for some filters and a search term. -/
structure Merged (ctx : Context) (root : Schema) (filters : List Filter) (term : String) (paths : List String) :
    Prop where
  sound : Sound ctx root paths
  mem_iff : ∀ path, path ∈ paths ↔ Listed ctx root filters term path
  /-- No join of a request is looked for in vain. -/
  joined : ∀ base preloads, Fails (·.kind? ≠ some .joinNotFound)
    (requestJoins ctx base paths (joinedPreloads ctx paths preloads))
  /-- Without a registry there is nothing to join. -/
  unregistered : ctx.registry = none → paths = [] ∧ ∀ preloads, joinedPreloads ctx paths preloads = []

section Merged

variable {ctx : Context} {subject : Subject} {root : Schema} {filters : List Filter} {term : String}
  {table : Option String} {fp : FilterPart} {sp : SearchPart} (described : ctx.schemaOf subject = .ok root)

include described

theorem sound_compileFilters (ok : (compileFilters ctx filters subject table).result = .ok fp) :
    Sound ctx root fp.paths := by
  refine sound_of_ordered described (nodup_compileFilters ok) ?_ (ordered_compileFilters described ok)
  intro path member
  obtain ⟨flt, _, crosses⟩ := (mem_paths_compileFilters described ok).mp member
  exact List.mem_takeWhile_imp crosses

theorem sound_compileSearch (ok : (compileSearch ctx term subject table).result = .ok sp) :
    Sound ctx root sp.paths := by
  refine sound_of_ordered described (nodup_compileSearch ok) ?_ (ordered_compileSearch described ok)
  intro path member
  obtain ⟨_, f, _, sought⟩ := (mem_paths_compileSearch described ok).mp member
  exact sought.isRegistered_path

theorem merged_of_parts (filtered : (compileFilters ctx filters subject table).result = .ok fp)
    (searched : (compileSearch ctx term subject table).result = .ok sp) :
    Merged ctx root filters term (Text.mergeNew fp.paths sp.paths) := by
  have listed : ∀ path, path ∈ Text.mergeNew fp.paths sp.paths ↔ Listed ctx root filters term path :=
    fun _ => mem_mergeNew_iff_listed described filtered searched
  have registered : ∀ path ∈ Text.mergeNew fp.paths sp.paths, ctx.isRegistered path = true :=
    fun path member => ((listed path).mp member).isRegistered
  refine ⟨?_, listed, ?_, ?_⟩
  · refine sound_of_ordered described (Text.nodup_mergeNew (nodup_compileFilters filtered) _) registered ?_
    exact (ordered_compileFilters described filtered).mergeNew
      ((ordered_compileSearch described searched).mono (List.nil_subset _))
  · intro base preloads
    refine fails_requestJoins registered ?_ preloads
    intro r _ path config _ inlined
    refine Registry.fails_join ?_ ?_ ?_ base inlined
    · exact (config.fails_validate "").mono fun e wrong => by simp [wrong.kind?_eq]
    · exact (fails_dialect _ _).mono fun e kind => by simp [kind]
    · exact (fails_quotable _).mono fun e kind => by simp [kind]
  · intro none
    have unknown : ∀ path, ctx.isRegistered path = false := by
      intro path
      simp [Context.isRegistered, Context.config?, none]
    refine ⟨List.eq_nil_iff_forall_not_mem.mpr fun path member => ?_, fun preloads => by simp [joinedPreloads, none]⟩
    cases (unknown path).symm.trans (registered path member)

end Merged

/-- The paths that filters and search list, and those of a whole query, can be joined one after the other. -/
theorem merged_of_compile {ctx : Context} {subject : Subject} {root : Schema}
    (described : ctx.schemaOf subject = .ok root) (q : Query) (table : Option String) :
    (∀ part, (compileFilters ctx q.filters subject table).result = .ok part → Sound ctx root part.paths) ∧
    (∀ part, (compileSearch ctx q.term subject table).result = .ok part → Sound ctx root part.paths) ∧
    (∀ filters search, (compileFilters ctx q.filters subject table).result = .ok filters →
      (compileSearch ctx q.term subject table).result = .ok search →
      Merged ctx root q.filters q.term (Text.mergeNew filters.paths search.paths)) ∧
    ∀ strict c, (compileQuery ctx strict q subject table).result = .ok c →
      ∃ paths, Merged ctx root q.filters q.term paths ∧ c.paths = paths ++ joinedPreloads ctx paths q.preloads := by
  refine ⟨fun part => sound_compileFilters described, fun part => sound_compileSearch described,
    fun filters search => merged_of_parts described, ?_⟩
  intro strict c ok
  obtain ⟨s, yields⟩ := compileQuery_eq_ok ok
  cases described.symm.trans yields.schema
  exact ⟨s.paths, merged_of_parts described yields.filters yields.search, by rw [yields.compiled]; rfl⟩

namespace Books

/-- Shelves are joined, and the rooms behind them. -/
def shelvingJoined : Context :=
  { shelving 2 with
    registry := some { entries := [
      ("Shelf.Room", { type := .oneToOne, table := "room", joinType := .left
                       keys := { localKey := some "RoomID", foreignKey := some "ID" } }),
      ("Shelf", { type := .oneToOne, table := "shelf", joinType := .left
                  keys := { localKey := some "ShelfID", foreignKey := some "ID" } })] } }

def onShelf : Query := { filters := [⟨"Shelf.Label", .equal, "A"⟩], term := "x" }

end Books

/-- A filter crosses shelves only; the search goes through the rooms behind them as well. -/
theorem merged_of_compile_shelves :
    ∃ c root, Books.shelvingJoined.schemaOf (.entity "Volume") = .ok root ∧
      (compileQuery Books.shelvingJoined true Books.onShelf (.entity "Volume") none).result = .ok c ∧
      c.paths = ["Shelf", "Shelf.Room"] ∧
      Merged Books.shelvingJoined root Books.onShelf.filters "x" ["Shelf", "Shelf.Room"] := by
  obtain ⟨root, described⟩ : ∃ root, Books.shelvingJoined.schemaOf (.entity "Volume") = .ok root := ⟨_, rfl⟩
  obtain ⟨c, ok, listed⟩ : ∃ c, (compileQuery Books.shelvingJoined true Books.onShelf (.entity "Volume")
      none).result = .ok c ∧ c.paths = ["Shelf", "Shelf.Room"] := ⟨_, rfl, rfl⟩
  obtain ⟨paths, merged, same⟩ := (merged_of_compile described Books.onShelf none).2.2.2 true c ok
  have only : c.paths = paths := same.trans (List.append_nil paths)
  refine ⟨c, root, described, ok, listed, ?_⟩
  rw [← listed, only]
  exact merged

end RowQuery.Compile
