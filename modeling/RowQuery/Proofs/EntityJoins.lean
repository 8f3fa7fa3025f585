import RowQuery.Proofs.Compilation

/-!
# The joins of an entity

What the schemas of a catalog and the registry of an entity hold. The fields of an entity have distinct
names, and a relation knows the table of the entity it leads to. So the registry has one configuration
for each relation; where no tag says otherwise, its keys are those that the naming conventions give.
-/

namespace RowQuery.Schema

/-! ## Schemas of a catalog -/

theorem names_putField (fields : List (String × FieldType)) (name : String) (type : FieldType) :
    (putField fields name type).map (·.1) =
      if name ∈ fields.map (·.1) then fields.map (·.1) else fields.map (·.1) ++ [name] := by
  have known : fields.any (·.1 == name) = true ↔ name ∈ fields.map (·.1) := by
    simp [List.any_eq_true]
  have kept : (Prod.fst ∘ fun f : String × FieldType => if f.1 == name then (name, type) else f) =
      Prod.fst := by
    funext f
    by_cases same : f.1 = name <;> simp [same]
  unfold putField
  by_cases present : name ∈ fields.map (·.1)
  · rw [if_pos (known.mpr present), if_pos present, List.map_map, kept]
  · rw [if_neg (known.not.mpr present), if_neg present, List.map_append]
    rfl

/-- The fields of an entity have distinct names. -/
def Entity.Distinct (e : Entity) : Prop := (e.fields.map (·.1)).Nodup

/-- Fields that are declared behind others have new names behind theirs. -/
theorem names_putFields (fields : List (String × FieldType)) (decls : List FieldDecl) :
    (decls.foldl (fun fields f => putField fields f.name f.fullType) fields).map (·.1) =
      Text.mergeNew (fields.map (·.1)) (decls.map (·.name)) := by
  induction decls generalizing fields with
  | nil => rfl
  | cons d decls ih =>
    rw [List.foldl_cons, ih, names_putField]
    rfl

namespace Catalog

variable {c : Catalog}

/-- What an entity inherits has distinct names, and a field that is declared again keeps its place. -/
theorem distinct_declare (distinct : ∀ e ∈ c, e.Distinct) (d : EntityDecl) :
    ∀ e ∈ c.declare d, e.Distinct := by
  intro e member
  rcases List.mem_append.mp member with old | new
  · exact distinct e old
  · cases List.mem_singleton.mp new
    rw [Entity.Distinct, names_putFields]
    refine Text.nodup_mergeNew ?_ _
    cases found : d.parent.bind c.get? with
    | none => simp
    | some parent =>
      obtain ⟨name, _, isParent⟩ := Option.bind_eq_some_iff.mp found
      exact distinct parent (List.mem_of_find?_eq_some isParent)

theorem distinct_ofDecls (decls : List EntityDecl) : ∀ e ∈ ofDecls decls, e.Distinct := by
  have kept : ∀ (c : Catalog), (∀ e ∈ c, e.Distinct) → ∀ e ∈ decls.foldl declare c, e.Distinct := by
    induction decls with
    | nil => exact fun _ distinct => distinct
    | cons d decls ih => exact fun c distinct => ih (c.declare d) (distinct_declare distinct d)
  exact kept [] (by simp)

/-- What a field is described as once its tag is checked. -/
def fieldOf (c : Catalog) (entity name : String) (peeled : FieldType.Peeled) : Except Error Field :=
  let tag := firstTag peeled.notes
  let translated := peeled.notes.contains (.marker .localized)
  let column := (nonEmpty? tag.column).getD name
  match peeled.base with
  | .entity target =>
    if translated then .error (.translatedRelation entity name)
    else .ok {
      name, column, kind := none, relation := relationOf tag, target := some target
      targetTable := some (((c.get? target).map Entity.table).getD target), isList := peeled.isList
      search := tag.search, polymorphic := tag.polymorphic, manyToMany := tag.manyToMany
      foreignKey := tag.foreignKey, join := tag.join }
  | base =>
    if (nonEmpty? tag.polymorphic).isSome || (nonEmpty? tag.manyToMany).isSome ||
        (nonEmpty? tag.join).isSome then .error (.strayRelationTag entity name)
    else .ok { name, column, kind := columnKind base peeled.notes, translated, search := tag.search }

theorem fieldOf_of_describeField {entity name : String} {type : FieldType} {f : Field}
    (ok : c.describeField entity name type = .ok f) : c.fieldOf entity name type.peel = .ok f := by
  simp only [describeField] at ok
  split at ok
  · cases ok
  · split at ok
    · split at ok
      · cases ok
      · exact ok
    · exact ok

/-- A field keeps its name, and knows the table of the entity that it leads to. -/
theorem fieldOf_eq_ok {entity name : String} {peeled : FieldType.Peeled} {f : Field}
    (ok : c.fieldOf entity name peeled = .ok f) :
    f.name = name ∧ ∀ target, f.target = some target →
      f.targetTable = some (((c.get? target).map Entity.table).getD target) := by
  simp only [fieldOf] at ok
  split at ok
  case h_1 =>
    split at ok
    · cases ok
    · cases ok
      refine ⟨rfl, ?_⟩
      rintro target ⟨rfl⟩
      rfl
  case h_2 =>
    split at ok
    · cases ok
    · cases ok
      exact ⟨rfl, nofun⟩

/-- The schema of an entity bears its name and its table and describes each of its fields, once all that
    these refer to is declared. -/
theorem described_of_describe {name : String} {schema : Schema} (ok : c.describe name = .ok schema) :
    ∃ e, c.get? name = some e ∧ c.undeclared name = none ∧ schema.entity = name ∧ schema.table = e.table ∧
      List.Forall₂ (fun x f => c.describeField name x.1 x.2 = .ok f) e.fields schema.fields := by
  unfold describe at ok
  cases found : c.get? name with
  | none => simp [found] at ok
  | some e =>
    have same : e.name = name := by simpa using List.find?_some found
    simp only [found, describeEntity, same] at ok
    split at ok
    · cases ok
    case h_2 declared =>
      obtain ⟨fields, described, made⟩ := bind_eq_ok.mp ok
      cases made
      have none : c.undeclared name = none := Option.eq_none_iff_forall_ne_some.mpr declared
      exact ⟨e, rfl, none, rfl, rfl, mapM_eq_ok.mp described⟩

/-- The schema of an entity has its table and describes each of its fields. -/
theorem describe_eq_ok {name : String} {schema : Schema} (ok : c.describe name = .ok schema) :
    ∃ e, c.get? name = some e ∧ schema.table = e.table ∧
      List.Forall₂ (fun x f => c.fieldOf name x.1 x.2.peel = .ok f) e.fields schema.fields := by
  obtain ⟨e, found, _, _, table, fields⟩ := described_of_describe ok
  exact ⟨e, found, table, fields.imp fun x f => fieldOf_of_describeField⟩

/-- The table that a relation leads to is that of the entity it leads to. -/
theorem targetTable_of_describe {name target : String} {schema related : Schema} {f : Field}
    (ok : c.describe name = .ok schema) (member : f ∈ schema.fields) (isTarget : f.target = some target)
    (described : c.describe target = .ok related) : f.targetTable = some related.table := by
  obtain ⟨e, _, _, fields⟩ := describe_eq_ok ok
  obtain ⟨x, _, made⟩ := exists_left_of_forall₂ fields member
  obtain ⟨e', found, table, _⟩ := describe_eq_ok described
  rw [(fieldOf_eq_ok made).2 target isTarget, found, table]
  rfl

theorem names_of_describe {name : String} {schema : Schema} {e : Entity} (ok : c.describe name = .ok schema)
    (found : c.get? name = some e) : schema.fields.map (·.name) = e.fields.map (·.1) := by
  obtain ⟨_, again, _, fields⟩ := describe_eq_ok ok
  cases found.symm.trans again
  have each : List.Forall₂ (· = ·) (schema.fields.map (·.name)) (e.fields.map (·.1)) := by
    refine List.forall₂_map_left_iff.mpr (List.forall₂_map_right_iff.mpr (fields.flip.imp ?_))
    intro f x made
    exact (fieldOf_eq_ok made).1
  rwa [List.forall₂_eq_eq_eq] at each

/-- The fields of a declared entity have distinct names. -/
theorem nodup_describe {decls : List EntityDecl} {name : String} {schema : Schema}
    (ok : (ofDecls decls).describe name = .ok schema) : (schema.fields.map (·.name)).Nodup := by
  obtain ⟨e, found, _⟩ := describe_eq_ok ok
  rw [names_of_describe ok found]
  exact distinct_ofDecls decls e (List.mem_of_find?_eq_some found)

end Catalog

end RowQuery.Schema

namespace RowQuery.Join

open RowQuery.Schema

/-! ## The registry of an entity -/

theorem lookup_replace {β : Type} (entries : List (String × β)) (key other : String) (b : β) :
    (entries.map fun e => if e.1 == key then (key, b) else e).lookup other =
      if other = key then (entries.lookup key).map fun _ => b else entries.lookup other := by
  induction entries with
  | nil => simp
  | cons e entries ih =>
    obtain ⟨name, value⟩ := e
    by_cases here : name = key
    · subst here
      by_cases asked : other = name
      · simp [asked]
      · simpa [List.lookup_cons, asked, beq_eq_false_iff_ne.mpr asked] using ih
    · by_cases asked : other = name
      · subst asked
        simp [here]
      · have apart : (key == name) = false := by simpa using Ne.symm here
        simpa [List.lookup_cons, here, beq_eq_false_iff_ne.mpr asked, apart] using ih

namespace Registry

@[simp] theorem dialect_put (r : Registry) (path : String) (config : Config) :
    (r.put path config).dialect = r.dialect := by
  unfold put
  split <;> rfl

theorem get?_put (r : Registry) (path other : String) (config : Config) :
    (r.put path config).get? other = if other = path then some config else r.get? other := by
  by_cases known : r.contains path = true
  · obtain ⟨old, present⟩ : ∃ old, r.entries.lookup path = some old := Option.isSome_iff_exists.mp known
    have replaced := lookup_replace r.entries path other config
    rw [present, Option.map_some] at replaced
    rw [put, if_pos known]
    exact replaced
  · have missing : r.entries.lookup path = none := Option.not_isSome_iff_eq_none.mp known
    rw [put, if_neg known, get?, List.lookup_append]
    by_cases asked : other = path
    · simp [asked, missing]
    · simp [asked, List.lookup_cons, beq_eq_false_iff_ne.mpr asked, get?]

/-- The configuration that a relation has in the registry of its entity, which goes by a table. -/
def ownConfig (settings : Settings) (table : String) (f : Field) : Except Error Config :=
  match nonEmpty? f.join with
  | some tag => Config.ofTag settings tag (some f) (some table)
  | none => Config.ofField settings f table none

/-- What the registry of an entity holds of a relation. -/
def Holding (settings : Settings) (table : String) (r : Registry) (f : Field) : Prop :=
  ∃ config, ownConfig settings table f = .ok config ∧ config.validate f.name = .ok () ∧
    r.get? f.name = some config

/-- Registering relations with distinct names keeps what is registered under other names. -/
theorem holding_of_foldlM {settings : Settings} {table : String} {fields : List Field}
    {r r' : Registry} (nodup : (fields.map (·.name)).Nodup)
    (ok : fields.foldlM (fun r f => do r.register f.name (← ownConfig settings table f)) r = .ok r') :
    r'.dialect = r.dialect ∧ (∀ f ∈ fields, r'.Holding settings table f) ∧
      ∀ name ∉ fields.map (·.name), r'.get? name = r.get? name := by
  induction fields generalizing r with
  | nil =>
    cases ok
    simp
  | cons f fields ih =>
    rw [List.foldlM_cons, bind_eq_ok] at ok
    obtain ⟨next, step, rest⟩ := ok
    obtain ⟨config, own, registered⟩ := bind_eq_ok.mp step
    obtain ⟨_, valid, same⟩ := bind_eq_ok.mp registered
    cases same
    obtain ⟨fresh, nodup⟩ := List.nodup_cons.mp nodup
    obtain ⟨dialect, each, others⟩ := ih nodup rest
    refine ⟨by rw [dialect, dialect_put], ?_, ?_⟩
    · intro g member
      rcases List.mem_cons.mp member with rfl | later
      · exact ⟨config, own, valid, by rw [others _ fresh, get?_put, if_pos rfl]⟩
      · exact each g later
    · intro name unknown
      rw [List.map_cons, List.mem_cons, not_or] at unknown
      rw [others name unknown.2, get?_put, if_neg unknown.1]

/-- The registry of an entity comes from registering its relations one after the other. -/
theorem ofSchema_eq_foldlM (settings : Settings) (dialect : Option String) (schema : Schema) :
    Registry.ofSchema settings dialect schema [] = (schema.fields.filter (·.isRelation)).foldlM
      (fun r f => do r.register f.name (← ownConfig settings schema.table f)) { dialect } := by
  show List.foldlM _ _ _ = _
  congr 1
  funext r f
  unfold ownConfig
  cases nonEmpty? f.join <;> rfl

/-- The registry of an entity whose fields have distinct names holds each of its relations. -/
theorem holding_of_ofSchema {settings : Settings} {dialect : Option String} {schema : Schema}
    {r : Registry} (nodup : (schema.fields.map (·.name)).Nodup)
    (ok : Registry.ofSchema settings dialect schema [] = .ok r) :
    r.dialect = dialect ∧ ∀ f ∈ schema.fields, f.isRelation = true →
      r.Holding settings schema.table f := by
  have relations : ((schema.fields.filter (·.isRelation)).map (·.name)).Nodup :=
    nodup.sublist (List.filter_sublist.map _)
  rw [ofSchema_eq_foldlM] at ok
  obtain ⟨kept, each, _⟩ := holding_of_foldlM relations ok
  refine ⟨kept, ?_⟩
  intro f member relation
  exact each f (List.mem_filter.mpr ⟨member, relation⟩)

end Registry

/-! ## Conventional configurations -/

namespace Config

theorem validate_eq_ok {config : Config} {path : String} :
    config.validate path = .ok () ↔ config.table ≠ "" ∧ config.missing = [] ∧ config.stray = [] := by
  unfold validate
  by_cases named : config.table = ""
  · simp [named]
  · by_cases complete : config.missing = []
    · by_cases clean : config.stray = [] <;> simp [named, complete, clean]
    · simp [named, complete]

/-- A valid configuration has the keys that its group needs. -/
theorem has_of_missing {config : Config} (complete : config.missing = []) {key : JoinKey}
    (needed : key ∈ config.group.keys) : config.keys.has key = true := by
  have each := List.filter_eq_nil_iff.mp complete key needed
  simpa using each

theorem assemble_eq_ok {settings : Settings} {type : RelationType} {table : Option String}
    {keys : Checked Keys} {config : Config} (ok : assemble settings type table none keys = .ok config) :
    settings.joinType = .ok config.joinType ∧ table = some config.table ∧ keys = .ok config.keys ∧
      config.type = type := by
  obtain ⟨joinType, setting, ok⟩ := bind_eq_ok.mp ok
  cases table with
  | none =>
    cases keys <;> cases ok
  | some table =>
    cases keys with
    | error problems => cases ok
    | ok keys =>
      cases ok
      exact ⟨setting, rfl, rfl, rfl⟩

/-- The plans that relations have by the naming conventions, one for each kind. -/
inductive Conventional (settings : Settings) (f : Field) (base related : String) : Plan → Prop where
  | direct {key : String} (kind : f.relation = .direct) (named : settings.keyName = .ok key) :
      Conventional settings f base related (.direct (f.foreignColumn settings) key)
  | pivot {pivot toBase toRelated : String} (kind : f.relation = .manyToMany)
      (through : f.manyToMany = some pivot) (baseColumn : settings.keyColumn base = .ok toBase)
      (relatedColumn : settings.keyColumn related = .ok toRelated) :
      Conventional settings f base related (.pivot pivot toBase toRelated)
  | polymorphic {id type : String} (kind : f.relation = .polymorphic)
      (idColumn : settings.keyColumn (.ofText? f.polymorphic) = .ok id)
      (typeColumn : settings.typeColumn (.ofText? f.polymorphic) = .ok type) :
      Conventional settings f base related (.polymorphic id type base)

theorem exists_of_has {keys : Keys} {key : JoinKey} (has : keys.has key = true) :
    ∃ text, keys.get key = some text := by
  obtain ⟨text, there⟩ := Option.isSome_iff_exists.mp has
  exact ⟨text, (Option.filter_eq_some_iff.mp there).1⟩

theorem text_of_readOptionalText {name s : String} {d : Detail}
    (ok : Checked.field name (readOptionalText (some d)) = .ok (some s)) : d = .text s := by
  cases d <;> cases ok
  rfl

/-- The configuration of a relation without a tag, if no key is missing, follows the conventions. -/
theorem conventional_of_ofField {settings : Settings} {f : Field} {base : String} {config : Config}
    (made : ofField settings f base none = .ok config) (complete : config.missing = []) :
    settings.joinType = .ok config.joinType ∧ f.targetTable = some config.table ∧
      Conventional settings f base config.table config.plan := by
  unfold ofField at made
  cases kind : f.relation with
  | none => simp [kind] at made
  | direct =>
    simp only [kind] at made
    obtain ⟨setting, table, keys, type⟩ := assemble_eq_ok made
    obtain ⟨read, isRead, same⟩ := map_eq_ok.mp keys
    have group : config.group = .direct := by
      rw [Config.group, type]
      split <;> rfl
    obtain ⟨key, there⟩ := exists_of_has (has_of_missing complete
      (show JoinKey.foreignKey ∈ config.group.keys by simp [group, KeyGroup.keys]))
    rw [← same] at there
    have isKey : read = some key := there
    subst isKey
    have named : settings.keyName = .ok key := by
      rw [Settings.keyName, text_of_readOptionalText isRead]
      rfl
    have plan : config.plan = .direct (f.foreignColumn settings) key := by
      simp [Config.plan, group, ← same, Keys.get]
    rw [plan]
    exact ⟨setting, table, .direct kind named⟩
  | manyToMany =>
    simp only [kind, bind_eq_ok] at made
    obtain ⟨toBase, baseColumn, toRelated, relatedColumn, made⟩ := made
    obtain ⟨setting, table, keys, type⟩ := assemble_eq_ok made
    have same := Except.ok.inj keys
    have group : config.group = .pivot := by rw [Config.group, type]; rfl
    obtain ⟨pivot, there⟩ := exists_of_has (has_of_missing complete
      (show JoinKey.pivotTable ∈ config.group.keys by simp [group, KeyGroup.keys]))
    rw [← same] at there
    have through : f.manyToMany = some pivot := there
    have plan : config.plan = .pivot pivot toBase toRelated := by
      simp [Config.plan, group, ← same, Keys.get, through]
    rw [table] at relatedColumn
    rw [plan]
    exact ⟨setting, table, .pivot kind through baseColumn relatedColumn⟩
  | polymorphic =>
    simp only [kind, bind_eq_ok] at made
    obtain ⟨id, idColumn, typeName, typeColumn, made⟩ := made
    obtain ⟨setting, table, keys, type⟩ := assemble_eq_ok made
    have same := Except.ok.inj keys
    have group : config.group = .polymorphic := by rw [Config.group, type]; rfl
    have plan : config.plan = .polymorphic id typeName base := by
      simp [Config.plan, group, ← same, Keys.get]
    rw [plan]
    exact ⟨setting, table, .polymorphic kind idColumn typeColumn⟩

end Config

end RowQuery.Join
