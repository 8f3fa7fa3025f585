import RowQuery.Proofs.Failures

/-!
# Correlation

A polymorphic relation is a subselect that refers to the row around it. Nothing is renamed, so the reference
goes to the innermost row of the table that it names. That is the row that is meant, unless the relation leads
back to its own table: then it is the related row itself, and only rows that belong to themselves are found.
-/

namespace RowQuery.Sql

/-- What is printed around a hole depends on the hole only by what is printed there. -/
theorem Frame.print_nestTokens (d : Dialect) (frames : List Frame) {ts us : List Token}
    (same : Token.print ts = Token.print us) :
    Token.print (nestTokens d frames ts) = Token.print (nestTokens d frames us) := by
  induction frames with
  | nil => exact same
  | cons frame frames ih =>
    show Token.print (frame.fillTokens d (nestTokens d frames ts)) =
      Token.print (frame.fillTokens d (nestTokens d frames us))
    cases frame with
    | select lhs selected source =>
      simp only [fillTokens, inSelectTokens, Token.bracketedSpaced, print_append, ih]
    | also q => simp only [fillTokens, connectTokens, print_append, ih]

/-- A row that a table stands for: the innermost one of its rows. -/
def Resolves {δ : Type} (scopes : Scopes δ) (table : String) (row : Row δ) : Prop :=
  scopes.find? (·.1 == table) = some (table, row)

theorem Resolves.value_eq {δ : Type} {scopes : Scopes δ} {table : String} {row : Row δ}
    (resolves : Resolves scopes table row) (name : String) (bare : Bool) :
    Column.value scopes ⟨some table, name, bare⟩ = row name := by
  have found : scopes.find? (·.1 == table) = some (table, row) := resolves
  simp only [Column.value, found, Option.bind_some]

/-- Inside of a subselect from its own table, a table stands for the row of the subselect. -/
theorem Resolves.cons {δ : Type} {scopes : Scopes δ} {table : String} {row : Row δ}
    (resolves : Resolves scopes table row) (other : String) (inner : Row δ) :
    Resolves ((other, inner) :: scopes) table (if table = other then inner else row) := by
  unfold Resolves
  by_cases same : table = other
  · simp [same]
  · rw [if_neg same, List.find?_cons_of_neg (by simpa using Ne.symm same)]
    exact resolves

end RowQuery.Sql

namespace RowQuery.Compile

open RowQuery.Schema RowQuery.Sql RowQuery.Join

variable {δ : Type} {E : Engine δ} {db : Database δ} {settings : Settings}

/-- Whether the condition of a relation finds a related row: it is linked to the row, and where a polymorphic
    relation leads back to its own table also to itself. -/
def Found (E : Engine δ) (db : Database δ) (settings : Settings) (x : Crossing) (s t : Row δ) : Prop :=
  Linked E db settings x s t ∧
    (x.field.relation = .polymorphic → x.outer = x.related → Linked E db settings x t t)

/-- Whether relations lead from one row to another by related rows that are found. -/
def Reaching (E : Engine δ) (db : Database δ) (settings : Settings) : List Crossing → Row δ → Row δ → Prop
  | [], s, t => s = t
  | x :: xs, s, t => ∃ u ∈ db x.related, Found E db settings x s u ∧ Reaching E db settings xs u t

/-- A polymorphic relation around any condition. -/
theorem holds_polymorphic {f : Field} {outer related : String} {frames : List Frame}
    (framed : Framed settings f outer related frames) (kind : f.relation = .polymorphic) {scopes : Scopes δ}
    {s : Row δ} (here : Resolves scopes outer s) (p : Predicate) :
    (Frame.nest frames p).Holds E db scopes ↔ ∃ t ∈ db related, p.Holds E db ((related, t) :: scopes) ∧
      Found E db settings ⟨f, outer, related⟩ s t := by
  cases framed with
  | direct other | pivot other => simp [kind] at other
  | polymorphic _ named id type =>
    rw [Settings.keyName, quotable_eq_ok] at named
    obtain ⟨stem, suffix, declared, isText, rfl⟩ := append_eq_ok.mp id
    obtain ⟨stem', typeSuffix, declared', isText', rfl⟩ := append_eq_ok.mp type
    cases declared.symm.trans declared'
    simp only [nest_polymorphicFrames, holds_inSelect, holds_and, holds_sameColumn, holds_hasText,
      value_of_head, here.value_eq, (here.cons related _).value_eq, Found, Linked, kind,
      ofText?_eq_text.mp declared, named, isText, isText', Detail.plain, Option.some.injEq, exists_eq_left',
      forall_const]
    constructor
    · rintro ⟨t, inRelated, ⟨⟨holds, refers⟩, type⟩, outside⟩
      refine ⟨t, inRelated, holds, ⟨outside.symm, type⟩, fun same => ⟨?_, type⟩⟩
      rwa [if_pos same] at refers
    · rintro ⟨t, inRelated, holds, ⟨refers, type⟩, itself⟩
      refine ⟨t, inRelated, ⟨⟨holds, ?_⟩, type⟩, refers.symm⟩
      by_cases same : outer = related
      · rw [if_pos same]
        exact (itself same).1
      · rwa [if_neg same]

/-- The frames of a relation around a condition that speaks of the related row alone. -/
theorem holds_nest_found {f : Field} {outer related : String} {frames : List Frame} {p : Predicate}
    {R : Row δ → Prop} (framed : Framed settings f outer related frames)
    (inner : ∀ t scopes, p.Holds E db ((related, t) :: scopes) ↔ R t) (s : Row δ) (scopes : Scopes δ) :
    (Frame.nest frames p).Holds E db ((outer, s) :: scopes) ↔
      ∃ t ∈ db related, Found E db settings ⟨f, outer, related⟩ s t ∧ R t := by
  have here : Resolves ((outer, s) :: scopes) outer s := by simp [Resolves]
  by_cases kind : f.relation = .polymorphic
  · rw [holds_polymorphic framed kind here]
    simp only [inner, and_comm (a := R _)]
  · rw [holds_nest framed (fun polymorphic => absurd polymorphic kind) inner]
    simp only [Found, kind, false_implies, and_true]

/-- A filter's condition holds at a row exactly if its route reaches from there a row that passes. -/
theorem holds_narrowed_reaching (E : Engine δ) (db : Database δ) {ctx : Context} {flt : Filter}
    {rest : List String} {head : String} {site : Site} {n : Narrowing} (unregistered : ctx.registry = none)
    (walk : Narrowed ctx flt rest head site n) :
    ∃ r, route ctx rest head site.schema site.table = some r ∧
      ∀ row scopes, n.condition.Holds E db ((site.table, row) :: scopes) ↔
        ∃ t, Reaching E db ctx.settings r.crossings row t ∧ r.Passes E ctx flt t := by
  induction walk with
  | @leaf head site f p shallow found column condition =>
    refine ⟨⟨[], f, []⟩, by simp [route, get?_of_field found, column], ?_⟩
    intro row scopes
    simpa [Reaching] using holds_leafCondition (leafCondition_eq_ok condition) row scopes
  | @inner next head more site f lhs t shallow found column expr test =>
    refine ⟨⟨[], f, next :: more⟩, by simp [route, get?_of_field found, column], ?_⟩
    intro row scopes
    simpa [Reaching] using holds_inner expr test row scopes
  | joined shallow found relation target registered rest ih =>
    simp [Context.registered?, unregistered] at registered
  | @nested next head more site f related frames n shallow found relation target _ rest framed ih =>
    obtain ⟨r, routed, inner⟩ := ih
    refine ⟨{ r with crossings := ⟨f, site.table, related.table⟩ :: r.crossings }, ?_, ?_⟩
    · have behind : route ctx more next related related.table = some r := routed
      simp [route, get?_of_field found, relation, target, behind]
    · intro row scopes
      rw [holds_nest_found (framed_of_relationFrames framed) inner row scopes]
      constructor
      · rintro ⟨u, inRelated, link, t, leads, passes⟩
        exact ⟨t, ⟨u, inRelated, link, leads⟩, passes⟩
      · rintro ⟨t, ⟨u, inRelated, link, leads⟩, passes⟩
        exact ⟨u, inRelated, link, t, leads, passes⟩

/-- The text of a relation around the text of a condition is that of its frames around the condition. -/
theorem relationText_eq {dialect : Option String} {d : Dialect} {f : Field} {outer related : String}
    {frames : List Frame} (known : Dialect.resolve settings dialect = .ok d)
    (framed : relationFrames settings dialect f outer related = .ok frames) (p : Predicate) :
    relationText settings dialect f outer related (p.text d) = .ok ((Frame.nest frames p).text d) := by
  have style : Dialect.style settings dialect = d := by simp [Dialect.style, known]
  have printed : Token.print [.word (p.text d)] = Token.print (p.tokens d) := String.empty_append
  rw [relationText, framed, style]
  show Except.ok _ = _
  rw [Frame.print_nestTokens d frames printed, ← Frame.tokens_nest]
  rfl

/-! ## Where the reference goes astray -/

/-- A row that belongs to another one of its own table, by its identifier and by the name of the table. -/
def ownedRow (table idColumn typeColumn : String) : Row String := fun column =>
  if column = typeColumn then some table else if column = idColumn then some (table ++ "!") else none

theorem not_same_ownedRow {table idColumn typeColumn key : String} (other : idColumn ≠ key) :
    ¬ Books.engine.Same (ownedRow table idColumn typeColumn idColumn) (ownedRow table idColumn typeColumn key) := by
  by_cases type : key = typeColumn
  · subst type
    simp [ownedRow, other, Engine.Same, Engine.same, Books.engine]
  · have missing : ownedRow table idColumn typeColumn key = none := by simp [ownedRow, type, Ne.symm other]
    rw [missing]
    exact fun same => Engine.not_same_none _ same.symm

theorem exists_stem {f : Field} {outer related : String} {frames : List Frame}
    (framed : Framed settings f outer related frames) (kind : f.relation = .polymorphic) :
    ∃ stem, f.polymorphic = some stem := by
  cases framed with
  | direct other | pivot other => simp [kind] at other
  | polymorphic _ _ id _ =>
    obtain ⟨stem, _, declared, _⟩ := append_eq_ok.mp id
    exact ⟨stem, ofText?_eq_text.mp declared⟩

theorem same_some (x : String) : Books.engine.Same (some x) (some x) := by
  simp [Engine.Same, Engine.same, Books.engine]

theorem linked_polymorphic {f : Field} {outer related stem : String} (kind : f.relation = .polymorphic)
    (owned : f.polymorphic = some stem) (s t : Row δ) : Linked E db settings ⟨f, outer, related⟩ s t ↔
      E.Same (t (stem ++ settings.foreignKeySuffix.plain)) (s settings.primaryKey.plain) ∧
      E.Same (t (stem ++ settings.polymorphicTypeSuffix.plain)) (some (E.text outer)) := by
  simp [Linked, kind, owned]

/-- A relation that leads back to its own table misses the rows that belong to others. -/
theorem exists_missed {f : Field} {table : String} {frames : List Frame}
    (framed : Framed settings f table table frames) (kind : f.relation = .polymorphic)
    (other : ∀ stem, f.polymorphic = some stem →
      stem ++ settings.foreignKeySuffix.plain ≠ settings.primaryKey.plain) :
    ∃ (db : Database String) (scopes : Scopes String) (s : Row String) (p : Predicate), Resolves scopes table s ∧
      ¬ (Frame.nest frames p).Holds Books.engine db scopes ∧
      ∃ t ∈ db table, p.Holds Books.engine db ((table, t) :: scopes) ∧
        Linked Books.engine db settings ⟨f, table, table⟩ s t := by
  obtain ⟨stem, owned⟩ := exists_stem framed kind
  let idColumn := stem ++ settings.foreignKeySuffix.plain
  let typeColumn := stem ++ settings.polymorphicTypeSuffix.plain
  let t := ownedRow table idColumn typeColumn
  let s : Row String := fun _ => t idColumn
  have type : t typeColumn = some table := if_pos rfl
  have here : Resolves [(table, s)] table s := by simp [Resolves]
  have links : Linked Books.engine (fun _ => [t]) settings ⟨f, table, table⟩ s t := by
    refine (linked_polymorphic kind owned s t).mpr ⟨?_, ?_⟩
    · show Books.engine.Same (t idColumn) (t idColumn)
      by_cases same : idColumn = typeColumn
      · rw [same, type]
        exact same_some table
      · have id : t idColumn = some (table ++ "!") := by simp [t, ownedRow, same]
        rw [id]
        exact same_some _
    · show Books.engine.Same (t typeColumn) (some table)
      rw [type]
      exact same_some table
  refine ⟨fun _ => [t], [(table, s)], s, .hasText ⟨some table, typeColumn, false⟩ table, here, ?_, t, by simp, ?_,
    links⟩
  · rw [holds_polymorphic framed kind here]
    rintro ⟨t', inRelated, _, _, itself⟩
    obtain rfl := List.mem_singleton.mp inRelated
    exact not_same_ownedRow (other stem owned) ((linked_polymorphic kind owned t t).mp (itself kind rfl)).1
  · rw [holds_hasText, value_of_head, type]
    exact same_some table

/-- What polymorphic relations refer to. A relation can be written around every condition, and holds at a row
    exactly if some related row satisfies the condition and belongs to the row; if the relation leads back to its
    own table, the related row has to belong to itself as well. So the row that is meant is missed there, and only
    there. The conditions of whole filters hold accordingly, however their relations are nested. -/
theorem correlated_except_to_itself (ctx : Context) :
    (∀ (c : Catalog) (entity : String) (schema : Schema) (f : Field) (d : Dialect) (outer related : String),
      c.describe entity = .ok schema → f ∈ schema.fields → f.relation = .polymorphic → NamesColumns ctx.settings →
      Dialect.resolve ctx.settings ctx.dialect = .ok d → ∃ frames,
        relationFrames ctx.settings ctx.dialect f outer related = .ok frames ∧
        (∀ p, relationText ctx.settings ctx.dialect f outer related (p.text d) =
          .ok ((Frame.nest frames p).text d)) ∧
        (∀ (δ : Type) (E : Engine δ) (db : Database δ) (scopes : Scopes δ) (s : Row δ) (p : Predicate),
          Resolves scopes outer s → ((Frame.nest frames p).Holds E db scopes ↔
            ∃ t ∈ db related, p.Holds E db ((related, t) :: scopes) ∧
              Linked E db ctx.settings ⟨f, outer, related⟩ s t ∧
              (outer = related → Linked E db ctx.settings ⟨f, outer, related⟩ t t))) ∧
        ((∀ stem, f.polymorphic = some stem →
            stem ++ ctx.settings.foreignKeySuffix.plain ≠ ctx.settings.primaryKey.plain) →
          ((∀ (E : Engine String) (db : Database String) (scopes : Scopes String) (s : Row String) (p : Predicate),
            Resolves scopes outer s → ((Frame.nest frames p).Holds E db scopes ↔
              ∃ t ∈ db related, p.Holds E db ((related, t) :: scopes) ∧
                Linked E db ctx.settings ⟨f, outer, related⟩ s t)) ↔ outer ≠ related))) ∧
    ∀ (filters : List Filter) (subject : Subject) (table : Option String) (part : FilterPart),
      ctx.registry = none → (compileFilters ctx filters subject table).result = .ok part →
      ∀ (δ : Type) (E : Engine δ) (db : Database δ), ∃ schema, ctx.schemaOf subject = .ok schema ∧
        List.Forall₂ (fun flt p =>
          ∃ r, route ctx flt.path.rest flt.path.head schema (rootTable schema table) = some r ∧
            ∀ t₀, p.Holds E db [(rootTable schema table, t₀)] ↔
              ∃ t, Reaching E db ctx.settings r.crossings t₀ t ∧ r.Passes E ctx flt t)
          filters part.conditions := by
  refine ⟨?_, ?_⟩
  · intro c entity schema f d outer related described field kind names known
    have wellFormed := Catalog.wellFormed_of_describe described f field
    have relation : f.isRelation = true := by simp [Field.isRelation, kind]
    obtain ⟨frames, framed⟩ := exists_frames names known wellFormed relation outer related
    have meaning := framed_of_relationFrames framed
    refine ⟨frames, framed, relationText_eq known framed, ?_, ?_⟩
    · intro δ E db scopes s p here
      rw [holds_polymorphic meaning kind here]
      simp only [Found, kind, forall_const]
    · intro other
      constructor
      · rintro intended rfl
        obtain ⟨db, scopes, s, p, here, missed, linked⟩ := exists_missed meaning kind other
        exact missed ((intended _ db scopes s p here).mpr linked)
      · intro apart E db scopes s p here
        rw [holds_polymorphic meaning kind here]
        simp only [Found, apart, false_implies, implies_true, and_true]
  · intro filters subject table part unregistered ok δ E db
    obtain ⟨schema, found, described, walks, rfl⟩ := compileFilters_eq_ok.mp ok
    refine ⟨schema, described, List.forall₂_map_right_iff.mpr (walks.imp ?_)⟩
    intro flt n walk
    obtain ⟨r, routed, holds⟩ := holds_narrowed_reaching E db unregistered (narrowed_of_narrow walk)
    exact ⟨r, routed, fun t₀ => holds t₀ []⟩

namespace Comments

/-- Comments, and the comments on them. -/
def thread : List EntityDecl :=
  [{ name := "Comment", table := some "comment", fields :=
      [⟨"ID", .scalar .int, none⟩, ⟨"Body", .scalar .string, none⟩,
        ⟨"Replies", .collection .list [.entity "Comment"], some { polymorphic := some "Owner" }⟩] }]

def context : Context :=
  { settings := {}, schemaOf := ({} : Cache).describe (.ofDecls thread), maxDepth := .int 8 }

def first : Row String
  | "ID" => some "1"
  | "Body" => some "Why?"
  | _ => none

/-- A comment on the first one. -/
def reply : Row String
  | "ID" => some "2"
  | "Body" => some "Because."
  | "OwnerID" => some "1"
  | "OwnerType" => some "comment"
  | _ => none

def rows : Database String
  | "comment" => [first, reply]
  | _ => []

/-- The relation from comments to the comments on them. -/
def replies : Field :=
  { name := "Replies", column := "Replies", kind := none, relation := .polymorphic, target := some "Comment"
    targetTable := some "comment", isList := true, polymorphic := some "Owner" }

/-- The condition that a reply says "Because.". -/
def condition : Predicate :=
  .inSelect ⟨some "comment", "ID", false⟩ ⟨some "comment", "OwnerID", false⟩ "comment"
    (.and (.and (.test (.column ⟨some "comment", "Body", false⟩) (.compare .equal (.str "Because.")))
        (.sameColumn ⟨some "comment", "OwnerID", false⟩ ⟨some "comment", "ID", false⟩))
      (.hasText ⟨some "comment", "OwnerType", false⟩ "comment"))

theorem compileFilters_replies :
    (compileFilters context [⟨"Replies.Body", .equal, "Because."⟩] (.entity "Comment") none).result =
      .ok ⟨[condition], []⟩ := by decide +kernel

end Comments

/-- The relation from comments to comments does not mean what it is meant to. A filter behind it finds a comment
    only if it belongs to itself. -/
theorem correlated_except_to_itself_comments :
    (∃ schema frames, (Catalog.ofDecls Comments.thread).describe "Comment" = .ok schema ∧
      Comments.replies ∈ schema.fields ∧ relationFrames {} none Comments.replies "comment" "comment" = .ok frames ∧
      ¬ ∀ (E : Engine String) (db : Database String) (scopes : Scopes String) (s : Row String) (p : Predicate),
        Resolves scopes "comment" s → ((Frame.nest frames p).Holds E db scopes ↔
          ∃ t ∈ db "comment", p.Holds E db (("comment", t) :: scopes) ∧
            Linked E db {} ⟨Comments.replies, "comment", "comment"⟩ s t)) ∧
    ∃ r, ∀ t₀, Comments.condition.Holds Books.engine Comments.rows [("comment", t₀)] ↔
      ∃ t, Reaching Books.engine Comments.rows {} [⟨Comments.replies, "comment", "comment"⟩] t₀ t ∧
        Route.Passes Books.engine Comments.context ⟨"Replies.Body", .equal, "Because."⟩ r t := by
  constructor
  · obtain ⟨schema, described, field⟩ : ∃ schema,
        (Catalog.ofDecls Comments.thread).describe "Comment" = .ok schema ∧ Comments.replies ∈ schema.fields :=
      ⟨_, rfl, List.mem_of_getElem? (i := 2) rfl⟩
    obtain ⟨frames, framed, _, _, intended⟩ := (correlated_except_to_itself Comments.context).1 _ _ schema
      Comments.replies .mysql "comment" "comment" described field rfl ⟨⟨_, rfl⟩, ⟨_, rfl⟩, ⟨_, rfl⟩⟩ rfl
    refine ⟨schema, frames, described, field, framed, fun all => (intended ?_).mp all rfl⟩
    rintro _ ⟨rfl⟩
    decide
  · obtain ⟨schema, described, each⟩ := (correlated_except_to_itself Comments.context).2 _ _ _ _ rfl
      Comments.compileFilters_replies String Books.engine Comments.rows
    cases described
    obtain ⟨⟨r, routed, holds⟩, _⟩ := List.forall₂_cons.mp each
    cases routed
    exact ⟨_, holds⟩

/-- The comment on the first comment belongs to it and says "Because.", but it is not found from there. -/
theorem reply_not_found :
    (compileFilters Comments.context [⟨"Replies.Body", .equal, "Because."⟩] (.entity "Comment") none).result =
      .ok ⟨[Comments.condition], []⟩ ∧
    Comments.reply ∈ Comments.rows "comment" ∧ Comments.reply "Body" = some "Because." ∧
    Linked Books.engine Comments.rows {} ⟨Comments.replies, "comment", "comment"⟩ Comments.first Comments.reply ∧
    ¬ Comments.condition.Holds Books.engine Comments.rows [("comment", Comments.first)] := by
  refine ⟨Comments.compileFilters_replies, by simp [Comments.rows], rfl, ?_, by decide +kernel⟩
  refine (linked_polymorphic rfl (show Comments.replies.polymorphic = some "Owner" from rfl) _ _).mpr ⟨?_, ?_⟩
  all_goals
    rw [Engine.Same]
    decide +kernel

end RowQuery.Compile
