import Mathlib.Data.List.Induction
import RowQuery.Proofs.EntityJoins

/-!
# Well-formed schemas

What the compilers rely on in the fields of a schema. A field either leads to an entity or is a column, and
what belongs to one of the two is not there for the other; the tags of a relation go with its kind; a search
pattern has one star. Every schema that a catalog describes is well formed, however the types of the fields
are wrapped, and its fields have the names that are declared, in their order.
-/

namespace RowQuery.Schema

theorem exists_nonEmpty {s : Option String} (there : (nonEmpty? s).isSome = true) : ∃ t, s = some t ∧ t ≠ "" := by
  obtain ⟨t, kept⟩ := Option.isSome_iff_exists.mp there
  obtain ⟨isText, notEmpty⟩ := Option.filter_eq_some_iff.mp kept
  exact ⟨t, isText, by simpa using notEmpty⟩

/-! ## References -/

namespace FieldType

theorem referencesAll_eq_flatMap (ts : List FieldType) : referencesAll ts = ts.flatMap references := by
  induction ts with
  | nil => rfl
  | cons t ts ih => rw [referencesAll, ih, List.flatMap_cons]

theorem mem_referencesAll {ts : List FieldType} {name : String} :
    name ∈ referencesAll ts ↔ ∃ t ∈ ts, name ∈ t.references := by
  rw [referencesAll_eq_flatMap, List.mem_flatMap]

@[simp] theorem references_note (t : FieldType) (notes : List Note) :
    (t.note notes).references = t.references := by
  cases t <;> rfl

@[simp] theorem referencesAll_members (t : FieldType) : referencesAll t.members = t.references := by
  cases t <;> simp [members, referencesAll, references]

theorem mem_of_mem_distinct {types : List FieldType} {t : FieldType} (member : t ∈ distinct types) :
    t ∈ types := by
  have kept : ∀ seen, t ∈ types.foldl (fun seen t => if seen.any (·.same t) then seen else seen ++ [t]) seen →
      t ∈ seen ∨ t ∈ types := by
    clear member
    induction types with
    | nil => exact fun seen member => .inl member
    | cons u types ih =>
      intro seen member
      rcases ih _ member with inside | later
      · dsimp only at inside
        split at inside
        · exact .inl inside
        · rcases List.mem_append.mp inside with old | new
          · exact .inl old
          · cases List.mem_singleton.mp new
            exact .inr List.mem_cons_self
      · exact .inr (List.mem_cons_of_mem _ later)
  rcases kept [] member with none | inside
  · cases none
  · exact inside

/-- A union refers to what its members refer to. -/
theorem mem_references_unite {types : List FieldType} {name : String}
    (member : name ∈ (unite types).references) : name ∈ referencesAll types := by
  have flat : ∀ t ∈ distinct (types.flatMap members), name ∈ t.references → name ∈ referencesAll types := by
    intro t inside refers
    obtain ⟨u, inTypes, isMember⟩ := List.mem_flatMap.mp (mem_of_mem_distinct inside)
    refine mem_referencesAll.mpr ⟨u, inTypes, ?_⟩
    rw [← referencesAll_members]
    exact mem_referencesAll.mpr ⟨t, isMember, refers⟩
  unfold unite at member
  split at member
  case h_1 t only => exact flat t (by rw [only]; exact List.mem_singleton_self t) member
  case h_2 =>
    obtain ⟨t, inside, refers⟩ := mem_referencesAll.mp member
    exact flat t inside refers

mutual

/-- The plain form of a type refers to nothing else. -/
theorem mem_references_normalize {name : String} :
    (t : FieldType) → name ∈ t.normalize.references → name ∈ t.references
  | .scalar _, member => member
  | .entity _, member => member
  | .noted t notes, member => by
    rw [normalize, references_note] at member
    exact mem_references_normalize t member
  | .union members, member => mem_referencesAll_normalizeAll members (mem_references_unite member)
  | .collection _ items, member => mem_referencesAll_normalizeAll items member
  | .map key value, member => by
    rw [normalize, references, List.mem_append] at member
    rw [references, List.mem_append]
    exact member.imp (mem_references_normalize key) (mem_references_normalize value)

theorem mem_referencesAll_normalizeAll {name : String} :
    (ts : List FieldType) → name ∈ referencesAll (normalizeAll ts) → name ∈ referencesAll ts
  | [], member => member
  | t :: ts, member => by
    rw [normalizeAll, referencesAll, List.mem_append] at member
    rw [referencesAll, List.mem_append]
    exact member.imp (mem_references_normalize t) (mem_referencesAll_normalizeAll ts)

end

mutual

/-- The entity below the wrappers of a type is one that it refers to. -/
theorem mem_references_strip {name : String} :
    (t : FieldType) → t.strip.base = .entity name → name ∈ t.references
  | .scalar _, base => by cases base
  | .entity _, base => by
    cases base
    exact List.mem_singleton_self name
  | .noted t _, base => mem_references_strip t base
  | .union members, base => by
    rw [strip] at base
    split at base
    case h_1 p only =>
      exact mem_references_stripMembers members p (by rw [only]; exact List.mem_singleton_self p) base
    case h_2 => cases base
  | .collection _ items, base => by
    cases items with
    | nil => cases base
    | cons t ts => exact List.mem_append_left _ (mem_references_strip t base)
  | .map _ _, base => by cases base

theorem mem_references_stripMembers {name : String} : (ts : List FieldType) → (p : Peeled) →
    p ∈ stripMembers ts → p.base = .entity name → name ∈ referencesAll ts
  | [], _, member, _ => by cases member
  | t :: ts, p, member, base => by
    have later : p ∈ stripMembers ts → name ∈ referencesAll (t :: ts) := by
      intro inside
      exact List.mem_append_right _ (mem_references_stripMembers ts p inside base)
    -- The member null is passed over; any other comes first.
    by_cases null : t = .scalar .null
    · subst null
      exact later member
    · rw [stripMembers] at member
      · rcases List.mem_cons.mp member with rfl | inside
        · exact List.mem_append_left _ (mem_references_strip t base)
        · exact later inside
      · exact null

end

theorem mem_references_peel {name : String} {t : FieldType} (base : t.peel.base = .entity name) :
    name ∈ t.references :=
  mem_references_normalize t (mem_references_strip t.normalize base)

end FieldType

/-! ## Fields -/

/-- What the compilers rely on in a field. An empty text counts as none, as it does for tags. -/
structure Field.WellFormed (c : Catalog) (f : Field) : Prop where
  /-- A relation leads to an entity, and nothing else does. -/
  target : f.isRelation = true ↔ f.target.isSome = true
  targetTable : f.isRelation = true ↔ f.targetTable.isSome = true
  /-- The entity is declared, and the table is its table. -/
  leads : ∀ name, f.target = some name → ∃ e, c.get? name = some e ∧ f.targetTable = some e.table
  /-- A relation holds nothing itself. -/
  relation : f.isRelation = true → f.kind = none ∧ f.translated = false
  polymorphic : f.relation = .polymorphic →
    (nonEmpty? f.polymorphic).isSome = true ∧ nonEmpty? f.manyToMany = none
  manyToMany : f.relation = .manyToMany →
    (nonEmpty? f.manyToMany).isSome = true ∧ nonEmpty? f.polymorphic = none
  direct : f.relation = .direct → nonEmpty? f.polymorphic = none ∧ nonEmpty? f.manyToMany = none
  /-- A column has nothing that relations have. -/
  column : f.relation = .none → f.polymorphic = none ∧ f.manyToMany = none ∧ f.foreignKey = none ∧
    f.join = none ∧ f.isList = false
  translated : f.translated = true → f.kind = some .json
  search : ∀ pattern, f.search = some pattern → pattern.toList.count '*' = 1

namespace Catalog

variable {c : Catalog}

/-- The checks that a field passes: its tags do not exclude each other, and its pattern has one star. -/
theorem checked_of_describeField {entity name : String} {type : FieldType} {f : Field}
    (ok : c.describeField entity name type = .ok f) :
    ¬((nonEmpty? (firstTag type.peel.notes).polymorphic).isSome = true ∧
        (nonEmpty? (firstTag type.peel.notes).manyToMany).isSome = true) ∧
      ∀ pattern, (firstTag type.peel.notes).search = some pattern → pattern.toList.count '*' = 1 := by
  simp only [describeField] at ok
  split at ok
  · cases ok
  case isFalse apart =>
    refine ⟨by simpa using apart, ?_⟩
    intro pattern search
    simp only [search] at ok
    split at ok
    · cases ok
    case isFalse one => simpa using one

/-- What an entity refers to is declared, unless it is reported. -/
theorem declared_of_undeclared {name : String} {e : Entity} (found : c.get? name = some e)
    (declared : c.undeclared name = none) {other : String} (refers : other ∈ references e) :
    ∃ e', c.get? other = some e' := by
  cases missing : c.firstUndeclared (references e) with
  | some unknown => simp [undeclared, searchUndeclared, found, missing] at declared
  | none =>
    have known := List.find?_eq_none.mp missing other refers
    exact Option.ne_none_iff_exists'.mp (by simpa using known)

/-- A tag makes a relation, of the kind that it has a text for. -/
theorem tags_of_relationOf {tag : Tag}
    (apart : ¬((nonEmpty? tag.polymorphic).isSome = true ∧ (nonEmpty? tag.manyToMany).isSome = true)) :
    relationOf tag ≠ .none ∧
      (relationOf tag = .polymorphic →
        (nonEmpty? tag.polymorphic).isSome = true ∧ nonEmpty? tag.manyToMany = none) ∧
      (relationOf tag = .manyToMany →
        (nonEmpty? tag.manyToMany).isSome = true ∧ nonEmpty? tag.polymorphic = none) ∧
      (relationOf tag = .direct → nonEmpty? tag.polymorphic = none ∧ nonEmpty? tag.manyToMany = none) := by
  unfold relationOf
  cases owner : nonEmpty? tag.polymorphic with
  | some stem =>
    cases pivot : nonEmpty? tag.manyToMany with
    | some table => simp [owner, pivot] at apart
    | none => simp
  | none => cases nonEmpty? tag.manyToMany <;> simp

theorem columnKind_of_localized {notes : List Note} (localized : notes.contains (.marker .localized) = true)
    (base : FieldType) : columnKind base notes = some .json := by
  have inside : Note.marker .localized ∈ notes := by simpa using localized
  simp [columnKind, inside]

/-- A field that is described is well formed, if its type refers to declared entities only. -/
theorem wellFormed_of_describeField {entity name : String} {type : FieldType} {f : Field}
    (declared : ∀ other ∈ type.references, ∃ e, c.get? other = some e)
    (ok : c.describeField entity name type = .ok f) : f.WellFormed c := by
  obtain ⟨apart, star⟩ := checked_of_describeField ok
  have made := fieldOf_of_describeField ok
  simp only [fieldOf] at made
  split at made
  case h_1 target base =>
    split at made
    case isTrue => cases made
    case isFalse plain =>
      obtain ⟨e, known⟩ := declared target (FieldType.mem_references_peel base)
      cases made
      obtain ⟨notNone, polymorphic, manyToMany, direct⟩ := tags_of_relationOf apart
      have isRelation : (relationOf (firstTag type.peel.notes) != .none) = true := by simpa using notNone
      refine ⟨?_, ?_, ?_, fun _ => ⟨rfl, rfl⟩, polymorphic, manyToMany, direct, fun none => absurd none notNone,
        by simp, star⟩
      · exact ⟨fun _ => rfl, fun _ => isRelation⟩
      · exact ⟨fun _ => rfl, fun _ => isRelation⟩
      · intro other same
        cases same
        exact ⟨e, known, by simp [known]⟩
  case h_2 base _ =>
    split at made
    case isTrue => cases made
    case isFalse =>
      cases made
      refine ⟨by simp [Field.isRelation], by simp [Field.isRelation], by simp, by simp [Field.isRelation], by simp,
        by simp, by simp, fun _ => ⟨rfl, rfl, rfl, rfl, rfl⟩, ?_, star⟩
      intro localized
      exact columnKind_of_localized localized _

/-- The fields of a described entity are well formed. -/
theorem wellFormed_of_describe {name : String} {schema : Schema} (ok : c.describe name = .ok schema) :
    ∀ f ∈ schema.fields, f.WellFormed c := by
  obtain ⟨e, found, declared, _, _, fields⟩ := described_of_describe ok
  intro f member
  obtain ⟨x, inside, described⟩ := exists_left_of_forall₂ fields member
  refine wellFormed_of_describeField ?_ described
  intro other refers
  exact declared_of_undeclared found declared (List.mem_flatMap.mpr ⟨x, inside, refers⟩)

/-! ## Declarations -/

/-- The names of the fields of an entity, none if it is not declared. -/
def fieldNames (c : Catalog) (name : String) : List String :=
  ((c.get? name).map fun e => e.fields.map (·.1)).getD []

end Catalog

/-- The names that a declaration gives the fields of its entity: those that it inherits, then its own new
    ones, in the order in which they are declared. -/
def EntityDecl.fieldNames (c : Catalog) (d : EntityDecl) : List String :=
  Text.mergeNew ((d.parent.map c.fieldNames).getD []) (d.fields.map (·.name))

namespace Catalog

theorem ofDecls_concat (decls : List EntityDecl) (d : EntityDecl) :
    ofDecls (decls ++ [d]) = (ofDecls decls).declare d := by
  rw [ofDecls, List.foldl_append]
  rfl

theorem names_ofDecls (decls : List EntityDecl) : (ofDecls decls).map (·.name) = decls.map (·.name) := by
  induction decls using List.reverseRecOn with
  | nil => rfl
  | append_singleton decls d ih =>
    rw [ofDecls_concat, declare, List.map_append, List.map_append, ih]
    rfl

/-- A declared entity is that of the first declaration of its name, and has the names that this gives. -/
theorem exists_decl_of_get? {decls : List EntityDecl} {name : String} {e : Entity}
    (found : (ofDecls decls).get? name = some e) :
    ∃ before d after, decls = before ++ d :: after ∧ d.name = name ∧ (∀ d' ∈ before, d'.name ≠ name) ∧
      e.fields.map (·.1) = d.fieldNames (ofDecls before) := by
  induction decls using List.reverseRecOn with
  | nil => cases found
  | append_singleton decls d ih =>
    rw [ofDecls_concat, declare, get?, List.find?_append] at found
    cases earlier : (ofDecls decls).get? name with
    | some e' =>
      rw [get?] at earlier
      rw [earlier, Option.some_or] at found
      cases found
      obtain ⟨before, d', after, rfl, isName, first, names⟩ := ih earlier
      exact ⟨before, d', after ++ [d], by simp, isName, first, names⟩
    | none =>
      rw [get?] at earlier
      rw [earlier, Option.none_or, List.find?_singleton] at found
      split at found
      case isTrue isName =>
        cases found
        refine ⟨decls, d, [], rfl, by simpa using isName, ?_, ?_⟩
        · intro d' member same
          have inside : d'.name ∈ (ofDecls decls).map (·.name) := by
            rw [names_ofDecls]
            exact List.mem_map_of_mem member
          obtain ⟨e', inCatalog, isName'⟩ := List.mem_map.mp inside
          exact List.find?_eq_none.mp earlier e' inCatalog (by simp [isName', same])
        · rw [names_putFields, EntityDecl.fieldNames]
          congr 1
          cases d.parent with
          | none => rfl
          | some parent => cases inherited : (ofDecls decls).get? parent <;> simp [fieldNames, inherited]
      case isFalse => cases found

/-- Every schema that is built is well formed: each of its fields is, and they have distinct names, those of
    the first declaration of the entity in the order in which they are declared. -/
theorem wellFormed_describeExactly {decls : List EntityDecl} {subject : Subject} {schema : Schema}
    (ok : (ofDecls decls).describeExactly subject = .ok schema) :
    (∀ f ∈ schema.fields, f.WellFormed (ofDecls decls)) ∧ (schema.fields.map (·.name)).Nodup ∧
      ∃ before d after, decls = before ++ d :: after ∧ subject = .entity d.name ∧
        (∀ d' ∈ before, d'.name ≠ d.name) ∧
        schema.fields.map (·.name) = d.fieldNames (ofDecls before) := by
  cases subject with
  | entity name =>
    have described : (ofDecls decls).describe name = .ok schema := ok
    obtain ⟨e, found, _⟩ := describe_eq_ok described
    obtain ⟨before, d, after, split, rfl, first, names⟩ := exists_decl_of_get? found
    refine ⟨wellFormed_of_describe described, nodup_describe described, before, d, after, split, rfl, first, ?_⟩
    rw [names_of_describe described found, names]
  | record => cases ok
  | other => cases ok
  | value => cases ok

end Catalog

namespace Samples

/-- Items, and volumes that extend them: with one relation of each kind, wrapped in several ways, some to
    entities that are declared later. -/
def library : List EntityDecl :=
  [{ name := "Item", fields := [⟨"ID", .scalar .int, none⟩, ⟨"Title", .scalar .string, none⟩] },
    { name := "Volume", table := some "volume", parent := some "Item", fields :=
      [⟨"Author", .optional (.entity "Person"), some { search := some "*" }⟩,
        ⟨"Title", .optional .localizedText, some { search := some "%*%" }⟩,
        ⟨"Labels", .collection .list [.entity "Label"],
          some { manyToMany := some "volume_label", polymorphic := some "" }⟩,
        ⟨"Remarks", .collection .tuple [.noted (.entity "Remark") [.tag { polymorphic := some "Owner" }],
          .scalar .int], none⟩] },
    { name := "Person", fields := [⟨"Name", .scalar .string, none⟩] },
    { name := "Label", fields := [] }, { name := "Remark", fields := [] }]

end Samples

theorem Catalog.wellFormed_describeExactly_library :
    ∃ schema, (ofDecls Samples.library).describeExactly (.entity "Volume") = .ok schema ∧
      (∀ f ∈ schema.fields, f.WellFormed (ofDecls Samples.library)) ∧
      (schema.fields.map (·.name)).Nodup ∧
      schema.fields.map (fun f => (f.name, f.relation)) = [("ID", .none), ("Title", .none),
        ("Author", .direct), ("Labels", .manyToMany), ("Remarks", .polymorphic)] := by
  obtain ⟨schema, ok, fields⟩ : ∃ schema,
      (ofDecls Samples.library).describeExactly (.entity "Volume") = .ok schema ∧
      schema.fields.map (fun f => (f.name, f.relation)) = [("ID", .none), ("Title", .none),
        ("Author", .direct), ("Labels", .manyToMany), ("Remarks", .polymorphic)] := ⟨_, rfl, rfl⟩
  obtain ⟨wellFormed, nodup, _⟩ := wellFormed_describeExactly ok
  exact ⟨schema, ok, wellFormed, nodup, fields⟩

end RowQuery.Schema
