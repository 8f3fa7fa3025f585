import RowQuery.Proofs.ReportedFailures
import RowQuery.Proofs.SessionSteps

/-!
# What a registry tells

A registry holds what was registered in it, and nothing else: of each path the configuration that was
accepted last, the paths in the order in which they were first accepted. So it is valid however it was
started and whatever was asked of it since. A configuration that is refused changes nothing, one that is
accepted is complete, and a complete one can be joined from any table.
-/

namespace RowQuery.Join

open RowQuery.Schema RowQuery.Sql RowQuery.Compile

/-! ## Complete configurations -/

theorem Keys.has_eq_true {keys : Keys} {key : JoinKey} :
    keys.has key = true ↔ ∃ text, keys.get key = some text ∧ text ≠ "" := by
  cases there : keys.get key <;> simp [Keys.has, nonEmpty?, there, Option.filter]

theorem Keys.has_eq_false {keys : Keys} {key : JoinKey} :
    keys.has key = false ↔ keys.get key = none ∨ keys.get key = some "" := by
  cases there : keys.get key with
  | none => simp [Keys.has, nonEmpty?, there]
  | some text => by_cases empty : text = "" <;> simp [Keys.has, nonEmpty?, there, Option.filter, empty]

namespace Config

/-- A configuration with a table and with all keys of the group that its type needs, but none of the other
    groups. An empty text counts as none. -/
structure Complete (config : Config) : Prop where
  table : config.table ≠ ""
  own : ∀ key ∈ config.type.group.keys, ∃ text, config.keys.get key = some text ∧ text ≠ ""
  others : ∀ group ≠ config.type.group, ∀ key ∈ group.keys,
    config.keys.get key = none ∨ config.keys.get key = some ""

theorem missing_eq_nil {config : Config} : config.missing = [] ↔
    ∀ key ∈ config.type.group.keys, ∃ text, config.keys.get key = some text ∧ text ≠ "" := by
  simp only [missing, List.filter_eq_nil_iff, Bool.not_eq_true', Bool.not_eq_false, Keys.has_eq_true]
  rfl

theorem stray_eq_nil {config : Config} : config.stray = [] ↔
    ∀ group ≠ config.type.group, ∀ key ∈ group.keys,
      config.keys.get key = none ∨ config.keys.get key = some "" := by
  have all : ∀ group : KeyGroup, group ∈ KeyGroup.all := by
    intro group
    cases group <;> decide
  simp only [stray, List.filter_eq_nil_iff, List.mem_flatMap, List.mem_filter, all, true_and, bne_iff_ne,
    Bool.not_eq_true, Keys.has_eq_false]
  constructor
  · intro clean group other key member
    exact clean key ⟨group, other, member⟩
  · rintro clean key ⟨group, other, member⟩
    exact clean group other key member

/-- The check accepts exactly the complete configurations, whatever path it names. -/
theorem validate_iff_complete {config : Config} {path : String} :
    config.validate path = .ok () ↔ config.Complete := by
  rw [validate_eq_ok, missing_eq_nil, stray_eq_nil]
  exact ⟨fun ⟨table, own, others⟩ => ⟨table, own, others⟩, fun c => ⟨c.table, c.own, c.others⟩⟩

end Config

namespace Registry

/-! ## One registration -/

theorem contains_iff_mem_paths {r : Registry} {path : String} : r.contains path = true ↔ path ∈ r.paths := by
  rw [contains, get?, paths, List.lookup_isSome_iff, List.mem_map]
  constructor
  · rintro ⟨entry, member, same⟩
    exact ⟨entry, member, (eq_of_beq same).symm⟩
  · rintro ⟨entry, member, rfl⟩
    exact ⟨entry, member, beq_self_eq_true _⟩

theorem paths_put (r : Registry) (path : String) (config : Config) :
    (r.put path config).paths = if path ∈ r.paths then r.paths else r.paths ++ [path] := by
  have kept : (Prod.fst ∘ fun e : String × Config => if e.1 == path then (path, config) else e) = Prod.fst := by
    funext e
    by_cases same : e.1 = path <;> simp [same]
  unfold put
  by_cases known : path ∈ r.paths
  · rw [if_pos (contains_iff_mem_paths.mpr known), if_pos known, paths, List.map_map, kept]
    rfl
  · rw [if_neg (contains_iff_mem_paths.not.mpr known), if_neg known, paths, List.map_append]
    rfl

theorem register_of_complete {config : Config} (complete : config.Complete) (r : Registry) (path : String) :
    r.register path config = .ok (r.put path config) := by
  rw [register, Config.validate_iff_complete.mpr complete]
  rfl

/-- A registry in which the configurations of a history were registered, in this order. They are complete, of
    each path the last one counts, and the paths stand in the order in which they came first. -/
structure Tells (r : Registry) (history : List (String × Config)) : Prop where
  last : ∀ path, r.get? path = history.reverse.lookup path
  listed : ∀ path, path ∈ r.paths ↔ path ∈ history.map (·.1)
  ordered : r.paths.Pairwise fun p q => (history.map (·.1)).idxOf p < (history.map (·.1)).idxOf q
  complete : ∀ entry ∈ history, entry.2.Complete

theorem tells_empty (dialect : Option String) : ({ dialect } : Registry).Tells [] where
  last := fun _ => rfl
  listed := fun _ => Iff.rfl
  ordered := .nil
  complete := by simp

namespace Tells

variable {r r' : Registry} {history : List (String × Config)}

/-- Going on with a history does not change where it has a path first. -/
theorem ordered_append (tells : r.Tells history) (later : List String) :
    r.paths.Pairwise fun p q =>
      (history.map (·.1) ++ later).idxOf p < (history.map (·.1) ++ later).idxOf q := by
  refine tells.ordered.imp_of_mem ?_
  intro p q inside inside' before
  rw [List.idxOf_append_of_mem ((tells.listed p).mp inside),
    List.idxOf_append_of_mem ((tells.listed q).mp inside')]
  exact before

/-- A complete configuration goes to the end of the history, and its path behind all others if it is new. -/
theorem put (tells : r.Tells history) (path : String) {config : Config} (complete : config.Complete) :
    (r.put path config).Tells (history ++ [(path, config)]) where
  last := by
    intro other
    rw [get?_put, tells.last, List.reverse_append, List.reverse_singleton, List.singleton_append, List.lookup_cons]
    by_cases same : other = path
    · simp [same]
    · rw [if_neg same, beq_eq_false_iff_ne.mpr same]
  listed := by
    intro other
    rw [paths_put, List.map_append]
    by_cases known : path ∈ r.paths
    · rw [if_pos known, tells.listed, List.mem_append]
      constructor
      · exact .inl
      · rintro (old | new)
        · exact old
        · rw [List.mem_singleton.mp new]
          exact (tells.listed path).mp known
    · rw [if_neg known, List.mem_append, List.mem_append, tells.listed]
      rfl
  ordered := by
    rw [paths_put, List.map_append]
    by_cases known : path ∈ r.paths
    · rw [if_pos known]
      exact tells.ordered_append _
    · rw [if_neg known]
      refine List.pairwise_append.mpr ⟨tells.ordered_append _, List.pairwise_singleton _ _, ?_⟩
      intro p inside q isPath
      obtain rfl := List.mem_singleton.mp isPath
      have before := (tells.listed p).mp inside
      have fresh := (tells.listed q).not.mp known
      rw [List.idxOf_append_of_mem before, List.idxOf_append_of_notMem fresh]
      have early := List.idxOf_lt_length_of_mem before
      omega
  complete := by
    intro entry member
    rcases List.mem_append.mp member with old | new
    · exact tells.complete entry old
    · rw [List.mem_singleton.mp new]
      exact complete

/-- What a registry accepts goes to the end of its history. -/
theorem register (tells : r.Tells history) {path : String} {config : Config}
    (ok : r.register path config = .ok r') : r'.dialect = r.dialect ∧ r'.Tells (history ++ [(path, config)]) := by
  obtain ⟨_, valid, same⟩ := bind_eq_ok.mp ok
  cases same
  exact ⟨dialect_put r path config, tells.put path (Config.validate_iff_complete.mp valid)⟩

/-- Registering one thing after the other, if all is accepted. -/
theorem foldlM {α : Type} {own : α → Except Error (String × Config)} {xs : List α} (tells : r.Tells history)
    (ok : xs.foldlM (fun r x => own x >>= fun entry => r.register entry.1 entry.2) r = .ok r') :
    r'.dialect = r.dialect ∧ ∃ made, List.Forall₂ (fun x entry => own x = .ok entry ∧ entry.2.Complete) xs made ∧
      r'.Tells (history ++ made) := by
  induction xs generalizing r history with
  | nil =>
    cases ok
    exact ⟨rfl, [], .nil, by simpa using tells⟩
  | cons x xs ih =>
    rw [List.foldlM_cons, bind_eq_ok] at ok
    obtain ⟨next, step, rest⟩ := ok
    obtain ⟨entry, isOwn, registered⟩ := bind_eq_ok.mp step
    obtain ⟨dialect, told⟩ := tells.register registered
    have complete := told.complete entry (by simp)
    obtain ⟨dialect', made, each, tells'⟩ := ih told rest
    refine ⟨dialect'.trans dialect, entry :: made, .cons ⟨isOwn, complete⟩ each, ?_⟩
    simpa using tells'

/-- What is registered is complete. -/
theorem complete_of_get? (tells : r.Tells history) {path : String} {config : Config}
    (registered : r.get? path = some config) : config.Complete := by
  rw [tells.last] at registered
  obtain ⟨before, after, split, _⟩ := List.lookup_eq_some_iff.mp registered
  refine tells.complete (path, config) (List.mem_reverse.mp ?_)
  simp [split]

/-- What is registered can be joined from any table, once the dialect is known and the key has a name. -/
theorem exists_join (tells : r.Tells history) {settings : Settings} {key : String} {d : Dialect} {path : String}
    {config : Config} (named : settings.keyName = .ok key) (known : Dialect.resolve settings r.dialect = .ok d)
    (registered : r.get? path = some config) (base : String) (inlined : Bool) :
    ∃ x, r.join settings base config inlined = .ok x := by
  have complete := tells.complete_of_get? registered
  exact Registry.exists_join named known (Config.validate_iff_complete.mpr complete) base inlined

end Tells

/-! ## How registries start -/

/-- The relations of an entity that its registry is made of: those that are named, or all. -/
def chosen (schema : Schema) (preloads : List String) : Except Error (List Field) :=
  if preloads.isEmpty then .ok (schema.fields.filter (·.isRelation))
  else preloads.mapM fun name => schema.field name ""

/-- What the registry of an entity has of a relation. -/
def ownEntry (settings : Settings) (table : String) (f : Field) : Except Error (String × Config) :=
  (ownConfig settings table f).map (f.name, ·)

theorem ofSchema_eq (settings : Settings) (dialect : Option String) (schema : Schema) (preloads : List String) :
    ofSchema settings dialect schema preloads = chosen schema preloads >>= fun fields =>
      fields.foldlM (fun r f => ownEntry settings schema.table f >>= fun entry => r.register entry.1 entry.2)
        { dialect } := by
  have step : ∀ (r : Registry) (f : Field), (ownEntry settings schema.table f >>= fun entry =>
      r.register entry.1 entry.2) = ownConfig settings schema.table f >>= fun config => r.register f.name config := by
    intro r f
    unfold ownEntry
    cases ownConfig settings schema.table f <;> rfl
  simp only [step, ofSchema, chosen, ownConfig]
  split
  all_goals
    refine bind_congr fun fields => ?_
    congr 1
    funext r f
    cases nonEmpty? f.join <;> rfl

/-- The registry of an entity has what its relations are joined by. -/
theorem tells_of_ofSchema {settings : Settings} {dialect : Option String} {schema : Schema}
    {preloads : List String} {r : Registry} (ok : ofSchema settings dialect schema preloads = .ok r) :
    r.dialect = dialect ∧ ∃ fields made, chosen schema preloads = .ok fields ∧
      List.Forall₂ (fun f entry => ownEntry settings schema.table f = .ok entry) fields made ∧ r.Tells made := by
  rw [ofSchema_eq] at ok
  obtain ⟨fields, isChosen, ok⟩ := bind_eq_ok.mp ok
  obtain ⟨kept, made, each, tells⟩ := (tells_empty dialect).foldlM ok
  exact ⟨kept, fields, made, isChosen, each.imp fun _ _ own => own.1, tells⟩

/-- What a relation is joined by if only its name is known. -/
def namedEntry (settings : Settings) (name : String) : Except Error (String × Config) := do
  let foreignKey ← settings.keyColumn (.text name)
  let config ← Config.assemble settings .oneToMany (some name) (some .left)
    (ownKey settings .oneToMany { foreignKey })
  return (name, config)

/-- The configuration of a relation by its name: the table of this name has a column that leads here. -/
def byName (settings : Settings) (name : String) : Config :=
  { type := .oneToMany, table := name, joinType := .left
    keys := { localKey := some settings.primaryKey.plain
              foreignKey := some (name ++ settings.foreignKeySuffix.plain) } }

theorem namedEntry_eq_ok {settings : Settings} {name : String} {entry : String × Config}
    (made : namedEntry settings name = .ok entry) (complete : entry.2.Complete) :
    entry = (name, byName settings name) := by
  obtain ⟨foreignKey, column, made⟩ := bind_eq_ok.mp made
  obtain ⟨config, assembled, same⟩ := bind_eq_ok.mp made
  cases same
  obtain ⟨_, suffix, isName, isSuffix, rfl⟩ := append_eq_ok.mp column
  cases isName
  cases read : Checked.field JoinKey.localKey.name (readOptionalText (some settings.primaryKey)) with
  | error problems =>
    rw [show ownKey settings .oneToMany { foreignKey := some (name ++ suffix) } = .error problems by
      simp [ownKey, read, RelationType.group]; rfl] at assembled
    cases assembled
  | ok key =>
    rw [show ownKey settings .oneToMany { foreignKey := some (name ++ suffix) } =
        .ok { localKey := key, foreignKey := some (name ++ suffix) } by
      simp [ownKey, read, RelationType.group]; rfl] at assembled
    cases assembled
    obtain ⟨text, there, _⟩ := complete.own .localKey (by simp [RelationType.group, KeyGroup.keys])
    cases (show key = some text from there)
    rw [byName, Config.text_of_readOptionalText read, isSuffix]
    rfl

theorem ofPreloads_eq (settings : Settings) (dialect : Option String) (preloads : List String) :
    ofPreloads settings dialect preloads =
      preloads.foldlM (fun r name => namedEntry settings name >>= fun entry => r.register entry.1 entry.2)
        { dialect } := by
  unfold ofPreloads namedEntry
  simp only [bind_assoc, pure_bind]

theorem tells_of_ofPreloads {settings : Settings} {dialect : Option String} {preloads : List String}
    {r : Registry} (ok : ofPreloads settings dialect preloads = .ok r) :
    r.dialect = dialect ∧ r.Tells (preloads.map fun name => (name, byName settings name)) := by
  rw [ofPreloads_eq] at ok
  obtain ⟨kept, made, each, tells⟩ := (tells_empty dialect).foldlM ok
  have same : List.Forall₂ (fun name entry => (name, byName settings name) = entry) preloads made :=
    each.imp fun name entry own => (namedEntry_eq_ok own.1 own.2).symm
  rw [← List.forall₂_map_left_iff (R := (· = ·)), List.forall₂_eq_eq_eq] at same
  exact ⟨kept, same ▸ tells⟩

end Registry

end RowQuery.Join

namespace RowQuery.Session

open RowQuery.Schema RowQuery.Sql RowQuery.Join RowQuery.Compile RowQuery.SessionM

variable {s t : Session}

/-- What is registered in a registry when it starts. -/
inductive Begun (s : Session) : RegistryStart → List (String × Config) → Prop where
  | empty : Begun s .empty []
  | ofEntity {subject : Subject} {preloads : List String} {cache : Option String} {slot : Nat} {schema : Schema}
      {fields : List Field} {made : List (String × Config)} (used : s.slotToUse cache = .ok slot)
      (described : s.schemaOf slot subject = .ok schema) (isChosen : Registry.chosen schema preloads = .ok fields)
      (each : List.Forall₂ (fun f entry => Registry.ownEntry s.settings schema.table f = .ok entry) fields made) :
      Begun s (.ofEntity subject preloads cache) made
  | ofPreloads (preloads : List String) :
      Begun s (.ofPreloads preloads) (preloads.map fun name => (name, Registry.byName s.settings name))

theorem tells_of_startRegistry {dialect : Option String} {start : RegistryStart} {r : Registry}
    (ok : (startRegistry dialect start).runFrom s = (.ok r, t)) :
    Kept s t ∧ r.dialect = dialect ∧ ∃ first, s.Begun start first ∧ r.Tells first := by
  cases start with
  | empty =>
    cases ok
    exact ⟨.refl s, rfl, [], .empty, Registry.tells_empty dialect⟩
  | ofEntity subject preloads cache =>
    obtain ⟨slot, u, opened, ok⟩ := runFrom_bind_eq_ok.mp ok
    rw [runFrom_openCache] at opened
    obtain ⟨used, same⟩ := Prod.mk.inj opened
    subst same
    obtain ⟨schema, u, isDescribed, ok⟩ := runFrom_bind_eq_ok.mp ok
    obtain ⟨described, kept⟩ := kept_of_describe isDescribed
    obtain ⟨isMade, same⟩ := Prod.mk.inj (show (_, u) = (_, t) from ok)
    subst same
    rw [kept.settings] at isMade
    obtain ⟨dialect, fields, made, isChosen, each, tells⟩ := Registry.tells_of_ofSchema isMade
    exact ⟨kept, dialect, made, .ofEntity used described isChosen each, tells⟩
  | ofPreloads preloads =>
    obtain ⟨isMade, same⟩ := Prod.mk.inj (show (_, s) = (_, t) from ok)
    subst same
    obtain ⟨dialect, tells⟩ := Registry.tells_of_ofPreloads isMade
    exact ⟨.refl s, dialect, _, .ofPreloads preloads, tells⟩

/-- What a draft registers under a path. -/
def draftEntry (settings : Settings) (x : String × Config.Draft) : Except Error (String × Config) :=
  (Config.ofDraft settings x.2).map (x.1, ·)

theorem tells_of_makeRegistry {draft : RegistryDraft} {r : Registry}
    (ok : (makeRegistry draft).runFrom s = (.ok r, t)) :
    Kept s t ∧ r.dialect = draft.dialect ∧ ∃ first later, s.Begun draft.start first ∧
      List.Forall₂ (fun x entry => draftEntry s.settings x = .ok entry) draft.entries later ∧
      r.Tells (first ++ later) := by
  obtain ⟨start, u, started, ok⟩ := runFrom_bind_eq_ok.mp ok
  obtain ⟨kept, dialect, first, begun, tells⟩ := tells_of_startRegistry started
  have step : ∀ (r : Registry) (x : String × Config.Draft),
      ((do r.register x.1 (← Config.ofDraft (← get).settings x.2) : SessionM Registry)).runFrom u =
        (draftEntry u.settings x >>= fun entry => r.register entry.1 entry.2, u) := by
    intro r x
    simp only [runFrom_bind, runFrom_get, andThen_ok, runFrom_liftM, draftEntry]
    cases Config.ofDraft u.settings x.2 <;> rfl
  obtain ⟨made, same⟩ := Prod.mk.inj ((runFrom_foldlM step draft.entries start).symm.trans ok)
  subst same
  obtain ⟨dialect', later, each, tells⟩ := tells.foldlM made
  rw [kept.settings] at each
  exact ⟨kept, dialect'.trans dialect, first, later, begun, each.imp fun _ _ own => own.1, tells⟩

/-! ## Registering by name -/

/-- A name stands for a registry, which is in a slot. -/
structure Has (s : Session) (name : String) (slot : Nat) (r : Registry) : Prop where
  found : s.registries.find? name = some slot
  there : s.registries.get? slot = some r

variable {name : String} {slot : Nat} {r : Registry}

theorem Has.slotOf_eq (has : s.Has name slot r) : slotOf s.registries name = .ok slot := by
  rw [slotOf, has.found]
  rfl

theorem Has.registryIn_eq (has : s.Has name slot r) : s.registryIn slot = r := by
  rw [registryIn, has.there]
  rfl

/-- A new registry goes to a slot of its own, and its name stands for it from then on. -/
theorem has_of_newRegistry {draft : RegistryDraft} (ok : (newRegistry name draft).runFrom s = (.ok r, t)) :
    ∃ u slot, (makeRegistry draft).runFrom s = (.ok r, u) ∧ t.settings = u.settings ∧ t.Has name slot r := by
  obtain ⟨r', u, made, ok⟩ := runFrom_bind_eq_ok.mp ok
  cases ok
  refine ⟨u, u.registries.items.length, made, rfl, ?_, ?_⟩
  · exact List.lookup_cons_self
  · exact List.getElem?_concat_length

/-- What registering a draft comes to: the registry with it, or an error. -/
def registration (settings : Settings) (r : Registry) (path : String) (draft : Config.Draft) :
    Except Error Registry :=
  Config.ofDraft settings draft >>= r.register path

/-- Registering by name puts the registry with the new entry in the place of the old one, or nothing if it is
    refused. -/
theorem runFrom_register (found : slotOf s.registries name = .ok slot) (path : String) (draft : Config.Draft) :
    (register name path draft).runFrom s = (registration s.settings (s.registryIn slot) path draft,
      (registration s.settings (s.registryIn slot) path draft).toOption.elim s fun r =>
        { s with registries := s.registries.set slot r }) := by
  simp only [register, runFrom_bind, runFrom_registrySlot, runFrom_registry, found, Except.map, andThen_ok,
    runFrom_get, runFrom_liftM, registration]
  cases Config.ofDraft s.settings draft with
  | error e => rfl
  | ok config =>
    have passed : (.ok config >>= (s.registryIn slot).register path) = (s.registryIn slot).register path config := rfl
    simp only [andThen_ok, runFrom_bind, runFrom_liftM, passed]
    cases (s.registryIn slot).register path config <;> rfl

theorem Has.set (has : s.Has name slot r) (r' : Registry) :
    Has { s with registries := s.registries.set slot r' } name slot r' where
  found := has.found
  there := by
    obtain ⟨inside, _⟩ := List.getElem?_eq_some_iff.mp has.there
    exact List.getElem?_set_self inside

/-- A call that fails leaves the session as it is, whatever the name stands for. -/
theorem eq_of_register_error {path : String} {draft : Config.Draft} {e : Error}
    (failed : (register name path draft).runFrom s = (.error e, t)) : t = s := by
  cases found : slotOf s.registries name with
  | error unknown =>
    rw [register, runFrom_bind, runFrom_registrySlot, found] at failed
    cases failed
    rfl
  | ok slot =>
    rw [runFrom_register found] at failed
    obtain ⟨refused, left⟩ := Prod.mk.inj failed
    rw [refused] at left
    exact left.symm

/-- What a call has registered, by what came of it. -/
def accepted (settings : Settings) (path : String) (draft : Config.Draft) :
    Except Error Registry → List (String × Config)
  | .ok _ => (draftEntry settings (path, draft)).toOption.toList
  | .error _ => []

/-- Calls one after the other, whatever comes of each: what was accepted, in this order, and the session
    that is left. -/
def registering (name : String) : List (String × Config.Draft) → Session → List (String × Config) × Session
  | [], s => ([], s)
  | (path, draft) :: calls, s =>
    let outcome := (register name path draft).runFrom s
    let later := registering name calls outcome.2
    (accepted s.settings path draft outcome.1 ++ later.1, later.2)

/-- One call adds to the history of the registry what is accepted of it. -/
theorem Has.step (has : s.Has name slot r) {history : List (String × Config)} (tells : r.Tells history)
    (path : String) (draft : Config.Draft) {outcome : Except Error Registry}
    (ran : (register name path draft).runFrom s = (outcome, t)) :
    t.settings = s.settings ∧ ∃ r', t.Has name slot r' ∧ r'.dialect = r.dialect ∧
      r'.Tells (history ++ accepted s.settings path draft outcome) := by
  rw [runFrom_register has.slotOf_eq, has.registryIn_eq] at ran
  obtain ⟨isOutcome, left⟩ := Prod.mk.inj ran
  rw [isOutcome] at left
  cases outcome with
  | error e =>
    cases left
    exact ⟨rfl, r, has, rfl, by simpa [accepted] using tells⟩
  | ok r' =>
    cases left
    obtain ⟨config, made, registered⟩ := bind_eq_ok.mp isOutcome
    obtain ⟨dialect, tells⟩ := tells.register registered
    refine ⟨rfl, r', has.set r', dialect, ?_⟩
    rw [accepted, draftEntry, made]
    exact tells

/-- Any calls leave a registry that tells what was accepted of them, behind what it told before. -/
theorem Has.run (has : s.Has name slot r) {history : List (String × Config)} (tells : r.Tells history)
    (calls : List (String × Config.Draft)) :
    (registering name calls s).2.settings = s.settings ∧ ∃ r', (registering name calls s).2.Has name slot r' ∧
      r'.dialect = r.dialect ∧ r'.Tells (history ++ (registering name calls s).1) := by
  induction calls generalizing s r history with
  | nil => exact ⟨rfl, r, has, rfl, by simpa [registering] using tells⟩
  | cons call calls ih =>
    obtain ⟨path, draft⟩ := call
    obtain ⟨settings, next, has, dialect, tells⟩ := has.step tells path draft rfl
    obtain ⟨settings', r', has, dialect', tells⟩ := ih has tells
    refine ⟨settings'.trans settings, r', has, dialect'.trans dialect, ?_⟩
    rwa [List.append_assoc] at tells

/-- A call succeeds exactly if its draft makes a complete configuration. -/
theorem Has.register_iff_complete (has : s.Has name slot r) (path : String) (draft : Config.Draft) :
    (∃ r' u, (register name path draft).runFrom s = (.ok r', u)) ↔
      ∃ config, Config.ofDraft s.settings draft = .ok config ∧ config.Complete := by
  have outcome : (∃ r' u, (register name path draft).runFrom s = (.ok r', u)) ↔
      ∃ r', registration s.settings r path draft = .ok r' := by
    rw [runFrom_register has.slotOf_eq, has.registryIn_eq]
    simp
  rw [outcome]
  constructor
  · rintro ⟨r', registered⟩
    obtain ⟨config, made, registered⟩ := bind_eq_ok.mp registered
    obtain ⟨_, valid, _⟩ := bind_eq_ok.mp registered
    exact ⟨config, made, Config.validate_iff_complete.mp valid⟩
  · rintro ⟨config, made, complete⟩
    refine ⟨r.put path config, ?_⟩
    rw [registration, made]
    exact Registry.register_of_complete complete r path

/-- The join of a registered path, by the name of the registry. -/
theorem Has.runFrom_joinAt (has : s.Has name slot r) {path : String} {config : Config}
    (registered : r.get? path = some config) (base : String) :
    (joinAt name path base).runFrom s = ((r.join s.settings base config false).map (joinTexts s.settings r), s) := by
  simp only [joinAt, runFrom_bind, runFrom_registry, has.slotOf_eq, Except.map, has.registryIn_eq, andThen_ok,
    runFrom_get, runFrom_liftM, Registry.require, registered]
  cases r.join s.settings base config false <;> rfl

/-- A registry is valid in every state. Whatever it starts as and whatever calls follow, it tells what was
    accepted; a call is accepted if its configuration is complete, and one that fails leaves all as it is; and
    what is registered can be joined from any table. What a relation is joined by of its own is accepted, too. -/
theorem registering_tells :
    (∀ (s₀ s : Session) (name : String) (draft : RegistryDraft) (r₀ : Registry),
      (newRegistry name draft).runFrom s₀ = (.ok r₀, s) → ∀ (calls : List (String × Config.Draft)) (t : Session),
      t = (registering name calls s).2 → ∃ first later slot r, s₀.Begun draft.start first ∧
        List.Forall₂ (fun x entry => draftEntry s₀.settings x = .ok entry) draft.entries later ∧
        t.Has name slot r ∧ r.Tells (first ++ later ++ (registering name calls s).1) ∧
        (∀ path call, (∃ r' u, (register name path call).runFrom t = (.ok r', u)) ↔
          ∃ config, Config.ofDraft t.settings call = .ok config ∧ config.Complete) ∧
        (∀ path call e u, (register name path call).runFrom t = (.error e, u) → u = t) ∧
        ((∃ key, t.settings.primaryKey = .text key) → (∃ d, Dialect.resolve t.settings draft.dialect = .ok d) →
          ∀ path ∈ r.paths, ∀ base,
          (∃ texts, (joinAt name path base).runFrom t = (.ok texts, t)) ∧
          ∃ config, r.get? path = some config ∧ config.Complete ∧
            ∀ inlined, ∃ x, r.join t.settings base config inlined = .ok x)) ∧
    ∀ (c : Catalog) (entity : String) (schema : Schema) (f : Field) (settings : Settings) (base : String)
      (requested : Option JoinType), c.describe entity = .ok schema → f ∈ schema.fields → f.isRelation = true →
      f.name ≠ "" ∨ settings.foreignKeySuffix.plain ≠ "" → f.targetTable ≠ some "" → base ≠ "" →
      settings.Valid → settings.primaryKey ≠ .text "" →
      ∃ config, Config.ofField settings f base requested = .ok config ∧
        ∀ (r : Registry) (path : String), r.register path config = .ok (r.put path config) := by
  refine ⟨?_, ?_⟩
  · rintro s₀ s name draft r₀ isNew calls _ rfl
    obtain ⟨u, slot, made, settings, has⟩ := has_of_newRegistry isNew
    obtain ⟨_, dialect, first, later, begun, entries, tells⟩ := tells_of_makeRegistry made
    obtain ⟨_, r, has, dialect', tells⟩ := has.run tells calls
    refine ⟨first, later, slot, r, begun, entries, has, tells, has.register_iff_complete, ?_, ?_⟩
    · intro path call e u failed
      exact eq_of_register_error failed
    · rintro ⟨key, isKey⟩ ⟨d, known⟩ path listed base
      obtain ⟨config, registered⟩ : ∃ config, r.get? path = some config :=
        Option.isSome_iff_exists.mp (Registry.contains_iff_mem_paths.mpr listed)
      rw [← dialect, ← dialect'] at known
      have joins := tells.exists_join (quotable_eq_ok.mpr isKey) known registered base
      refine ⟨?_, config, registered, tells.complete_of_get? registered, joins⟩
      obtain ⟨x, joined⟩ := joins false
      exact ⟨_, by rw [has.runFrom_joinAt registered, joined]; rfl⟩
  · intro c entity schema f settings base requested described field relation named there based valid keyed
    have wellFormed := Catalog.wellFormed_of_describe described f field
    obtain ⟨type, setting⟩ : ∃ type, requested.elim settings.joinType .ok = .ok type := by
      cases requested with
      | none => exact valid.joinType
      | some type => exact ⟨type, rfl⟩
    obtain ⟨config, made, accepted⟩ :=
      Config.exists_ofField valid.columns requested setting wellFormed relation base
    have complete := Config.validate_iff_complete.mp (accepted named based keyed there)
    exact ⟨config, made, Registry.register_of_complete complete⟩

namespace Samples

/-- Four calls: a new path, the same without a table, a relation with a key too many, and another join of a
    path that is there. -/
def calls : List (String × Config.Draft) :=
  [("Shelf", { type := some (.text "one_to_one"), table := some (.text "shelf")
               keys := [(.localKey, .text "ShelfID"), (.foreignKey, .text "ID")] }),
    ("Shelf", { type := some (.text "one_to_one"), table := some (.text "") }),
    ("Labels", { type := some (.text "one_to_many"), table := some (.text "label")
                 keys := [(.localKey, .text "ID"), (.foreignKey, .text "VolumeID"), (.pivotTable, .text "x")] }),
    ("Author", { type := some (.text "one_to_one"), table := some (.text "writer")
                 keys := [(.localKey, .text "WriterID"), (.foreignKey, .text "ID")] })]

/-- The registry of volumes, to be filled by the calls. -/
def volumes : RegistryDraft := { start := .ofEntity (.entity "Volume") [] }

end Samples

/-- Of four calls on the registry of volumes two are accepted, and the new join of the authors is the one that
    counts. The join that remarks have of their own would be accepted, too. -/
theorem registering_tells_volumes :
    (∃ r₀ s slot r,
      (newRegistry "joins" Samples.volumes).runFrom { catalog := .ofDecls Samples.library } = (.ok r₀, s) ∧
      (registering "joins" Samples.calls s).1.map (·.1) = ["Shelf", "Author"] ∧
      (registering "joins" Samples.calls s).2.Has "joins" slot r ∧
      (r.get? "Author").map (·.table) = some "writer" ∧
      ∃ texts, (joinAt "joins" "Author" "").runFrom (registering "joins" Samples.calls s).2 =
        (.ok texts, (registering "joins" Samples.calls s).2)) ∧
    ∃ schema f config, (Catalog.ofDecls Samples.library).describe "Volume" = .ok schema ∧ f ∈ schema.fields ∧
      Config.ofField {} f "volume" none = .ok config ∧ config.type = .polymorphic ∧
      ∀ (r : Registry) (path : String), r.register path config = .ok (r.put path config) := by
  have valid : ({} : Settings).Valid :=
    Settings.valid_of_ofEnvironment (show Settings.ofEnvironment [] = .ok {} from rfl)
  constructor
  · obtain ⟨r₀, s, isNew, left, shelf, author, isAuthor, told⟩ : ∃ r₀ s,
        (newRegistry "joins" Samples.volumes).runFrom { catalog := .ofDecls Samples.library } = (.ok r₀, s) ∧
        (registering "joins" Samples.calls s).2.settings = {} ∧ ∃ shelf author : Config, author.table = "writer" ∧
        (registering "joins" Samples.calls s).1 = [("Shelf", shelf), ("Author", author)] :=
      ⟨_, _, rfl, rfl, _, _, rfl, rfl⟩
    obtain ⟨first, later, slot, r, _, _, has, tells, _, _, joins⟩ :=
      registering_tells.1 _ s "joins" Samples.volumes r₀ isNew Samples.calls _ rfl
    have known : r.get? "Author" = some author := by
      rw [tells.last, told]
      simp
    have listed : "Author" ∈ r.paths := Registry.contains_iff_mem_paths.mp (by rw [Registry.contains, known]; rfl)
    rw [left] at joins
    refine ⟨r₀, s, slot, r, isNew, by rw [told]; rfl, has, by rw [known, Option.map_some, isAuthor], ?_⟩
    exact (joins ⟨"ID", rfl⟩ ⟨.mysql, rfl⟩ "Author" listed "").1
  · obtain ⟨schema, f, own, described, field, relation, named, there, made, kind⟩ : ∃ schema f own,
        (Catalog.ofDecls Samples.library).describe "Volume" = .ok schema ∧ f ∈ schema.fields ∧
        f.isRelation = true ∧ f.name ≠ "" ∧ f.targetTable ≠ some "" ∧
        Config.ofField {} f "volume" none = .ok own ∧ own.type = .polymorphic :=
      ⟨_, _, _, rfl, List.mem_of_getElem? (i := 4) rfl, rfl, by decide, by decide, rfl, rfl⟩
    obtain ⟨config, isOwn, accepted⟩ := registering_tells.2 _ _ schema f {} "volume" none described field relation
      (.inl named) there (by decide) valid (by decide)
    cases Except.ok.inj (isOwn.symm.trans made)
    exact ⟨schema, f, own, described, field, made, kind, accepted⟩

end RowQuery.Session
