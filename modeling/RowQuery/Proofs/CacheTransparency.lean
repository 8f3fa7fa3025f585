import RowQuery.Proofs.SessionSteps
import RowQuery.Proofs.Traces
import RowQuery.Proofs.WellFormedSchemas

/-!
# Caches that do not show

What a cache remembers of an entity is what its catalog says of it. So a schema is the same through every
cache, and two sessions that differ only in what they remember answer every request alike, whether it succeeds
or fails. `Parallel` says so of two steps; it is carried through whatever steps are made of.
-/

namespace RowQuery

open RowQuery.Schema RowQuery.Join RowQuery.Compile

/-- A compiler with the shared cache in the place of its own. -/
def Compiler.unplaced (c : Compiler) : Compiler := { c with cache := Session.sharedCache }

namespace Session

variable {c : Catalog} {s t s' t' : Session}

/-- A session whose caches remember only what a catalog says. -/
structure Sound (c : Catalog) (s : Session) : Prop where
  catalog : s.catalog = c
  remembered : ∀ cache ∈ s.caches.items, ∀ schema ∈ cache.schemas, c.describe schema.entity = .ok schema

namespace Sound

/-- A cache that holds nothing wrong describes a subject as an empty one does. -/
theorem describe_eq {cache : Cache} (sound : ∀ schema ∈ cache.schemas, c.describe schema.entity = .ok schema)
    (subject : Subject) : cache.describe c subject = ({} : Cache).describe c subject := by
  unfold Cache.describe
  cases subject.entity? with
  | none => rfl
  | some name =>
    cases known : cache.get? name with
    | none =>
      simp only [known]
      rfl
    | some schema =>
      have member := List.mem_of_find?_eq_some known
      have isName : schema.entity = name := by simpa using List.find?_some known
      simp only [known]
      rw [← isName]
      exact (sound schema member).symm

/-- The schema of a subject is the same through every cache. -/
theorem schemaOf_eq (sound : s.Sound c) (slot : Nat) (subject : Subject) :
    s.schemaOf slot subject = ({} : Cache).describe c subject := by
  unfold schemaOf
  rw [sound.catalog]
  cases used : s.caches.get? slot with
  | none => rfl
  | some cache => exact describe_eq (sound.remembered cache (List.mem_of_getElem? used)) subject

theorem insert {cache : Cache} (sound : ∀ schema ∈ cache.schemas, c.describe schema.entity = .ok schema)
    {schema : Schema} (described : c.describe schema.entity = .ok schema) :
    ∀ other ∈ (cache.insert schema).schemas, c.describe other.entity = .ok other := by
  unfold Cache.insert
  split
  · exact sound
  · intro other member
    rcases List.mem_append.mp member with old | new
    · exact sound other old
    · rw [List.mem_singleton.mp new]
      exact described

theorem absorb (sound : s.Sound c) {event : Event} (told : event.From c) (slot : Nat) :
    (s.absorb slot event).Sound c := by
  cases event with
  | recorded r => exact ⟨sound.catalog, sound.remembered⟩
  | described schema =>
    unfold Session.absorb
    cases used : s.caches.get? slot with
    | none => exact sound
    | some cache =>
      dsimp only
      split
      · exact sound
      · refine ⟨sound.catalog, fun other member => ?_⟩
        rcases List.mem_or_eq_of_mem_set member with old | rfl
        · exact sound.remembered other old
        · exact insert (sound.remembered cache (List.mem_of_getElem? used)) told

theorem foldl_absorb {events : List Event} (told : ∀ event ∈ events, event.From c) (sound : s.Sound c) (slot : Nat) :
    (events.foldl (Session.absorb slot) s).Sound c := by
  induction events generalizing s with
  | nil => exact sound
  | cons event events ih =>
    have first := sound.absorb (told event List.mem_cons_self) slot
    exact ih (fun event member => told event (List.mem_cons_of_mem _ member)) first

end Sound

/-- Two sessions that differ at most in what they remember, in their logs and in which caches their compilers
    use. -/
structure Alike (c : Catalog) (s t : Session) : Prop where
  left : s.Sound c
  right : t.Sound c
  settings : s.settings = t.settings
  cacheNames : s.caches.names = t.caches.names
  cacheCount : s.caches.items.length = t.caches.items.length
  registries : s.registries = t.registries
  compilers : List.Forall₂ (fun x y => x.1 = y.1 ∧ x.2.unplaced = y.2.unplaced) s.compilers t.compilers

namespace Alike

theorem refl (sound : s.Sound c) : Alike c s s where
  left := sound
  right := sound
  settings := rfl
  cacheNames := rfl
  cacheCount := rfl
  registries := rfl
  compilers := List.forall₂_same.mpr fun _ _ => ⟨rfl, rfl⟩

/-- What is kept on both sides stays alike. -/
theorem of_kept (alike : Alike c s t) (first : Kept s s') (second : Kept t t') (left : s'.Sound c)
    (right : t'.Sound c) : Alike c s' t' where
  left := left
  right := right
  settings := by rw [first.settings, second.settings, alike.settings]
  cacheNames := by rw [first.cacheNames, second.cacheNames, alike.cacheNames]
  cacheCount := by rw [first.cacheCount, second.cacheCount, alike.cacheCount]
  registries := by rw [first.registries, second.registries, alike.registries]
  compilers := by rw [first.compilers, second.compilers]; exact alike.compilers

/-- A compiler reads the same of both. -/
theorem contextOf_eq (alike : Alike c s t) {first second : Compiler} (same : first.unplaced = second.unplaced) :
    contextOf first s = contextOf second t := by
  have schemas : s.schemaOf first.cache = t.schemaOf second.cache := by
    funext subject
    rw [alike.left.schemaOf_eq, alike.right.schemaOf_eq]
  obtain ⟨registry, cache, language, dialect, strict, maxDepth⟩ := first
  obtain ⟨registry', cache', language', dialect', strict', maxDepth'⟩ := second
  cases same
  simp only [contextOf, alike.settings, alike.registries, schemas]

theorem schemas (alike : Alike c s t) (compiler : Compiler) : (contextOf compiler t).Over c :=
  alike.right.schemaOf_eq compiler.cache

end Alike

/-! ## Steps that go alike -/

/-- What two steps come to, if they go alike: related results or the same error, and sessions that are alike. -/
inductive Outcome {α β : Type} (c : Catalog) (P : α → β → Prop) :
    Except Error α × Session → Except Error β × Session → Prop where
  | ok {a : α} {b : β} {s t : Session} (related : P a b) (alike : Alike c s t) : Outcome c P (.ok a, s) (.ok b, t)
  | error {s t : Session} (e : Error) (alike : Alike c s t) : Outcome c P (.error e, s) (.error e, t)

theorem Outcome.alike {α β : Type} {P : α → β → Prop} {x : Except Error α × Session} {y : Except Error β × Session}
    (outcome : Outcome c P x y) : Alike c x.2 y.2 := by
  cases outcome with
  | ok _ alike => exact alike
  | error _ alike => exact alike

theorem Outcome.result_eq {α : Type} {x y : Except Error α × Session} (outcome : Outcome c Eq x y) : x.1 = y.1 := by
  cases outcome with
  | ok related _ => rw [related]
  | error e _ => rfl

/-- Two steps that go alike from sessions that are alike. -/
def Parallel {α β : Type} (c : Catalog) (P : α → β → Prop) (x : SessionM α) (y : SessionM β) : Prop :=
  ∀ s t, Alike c s t → Outcome c P (x.runFrom s) (y.runFrom t)

namespace Parallel

open SessionM

variable {α β γ δ : Type} {P : α → β → Prop} {Q : γ → δ → Prop} {x : SessionM α} {y : SessionM β}

theorem pure {a : α} {b : β} (related : P a b) : Parallel c P (pure a) (pure b) := fun _ _ alike => .ok related alike

theorem throw (e : Error) : Parallel c P (throw e) (throw e) := fun _ _ alike => .error e alike

theorem liftM (z : Except Error α) : Parallel c Eq (liftM z : SessionM α) (liftM z) := by
  intro s t alike
  cases z with
  | error e => exact .error e alike
  | ok a => exact .ok rfl alike

theorem get : Parallel c (Alike c) get get := fun _ _ alike => .ok alike alike

theorem modify {f g : Session → Session} (each : ∀ s t, Alike c s t → Alike c (f s) (g t)) :
    Parallel c Eq (modify f : SessionM PUnit) (modify g) := fun s t alike => .ok rfl (each s t alike)

theorem bind {f : α → SessionM γ} {g : β → SessionM δ} (first : Parallel c P x y)
    (next : ∀ a b, P a b → Parallel c Q (f a) (g b)) : Parallel c Q (x >>= f) (y >>= g) := by
  intro s t alike
  rw [runFrom_bind, runFrom_bind]
  have outcome := first s t alike
  generalize x.runFrom s = p at outcome ⊢
  generalize y.runFrom t = q at outcome ⊢
  cases outcome with
  | ok related alike => exact next _ _ related _ _ alike
  | error e alike => exact .error e alike

/-- Steps with the same result go on alike. -/
theorem next {x y : SessionM α} {f : α → SessionM γ} {g : α → SessionM δ} (first : Parallel c Eq x y)
    (next : ∀ a, Parallel c Q (f a) (g a)) : Parallel c Q (x >>= f) (y >>= g) := by
  refine first.bind ?_
  rintro a _ rfl
  exact next a

theorem returns {x y : SessionM α} (first : Parallel c Eq x y) (f : α → γ) :
    Parallel c Eq (do return f (← x)) (do return f (← y)) :=
  first.next fun _ => pure rfl

/-- Steps that only look something up, and find the same. -/
theorem of_lookup {x y : SessionM α} {find find' : Session → Except Error α} (ran : ∀ s, x.runFrom s = (find s, s))
    (ran' : ∀ s, y.runFrom s = (find' s, s)) (same : ∀ s t, Alike c s t → find s = find' t) :
    Parallel c Eq x y := by
  intro s t alike
  rw [ran, ran', same s t alike]
  cases find' t with
  | error e => exact .error e alike
  | ok a => exact .ok rfl alike

theorem foldlM {f g : γ → α → SessionM γ} (step : ∀ b a, Parallel c Eq (f b a) (g b a)) (xs : List α) (b : γ) :
    Parallel c Eq (xs.foldlM f b) (xs.foldlM g b) := by
  induction xs generalizing b with
  | nil => exact pure rfl
  | cons a xs ih =>
    rw [List.foldlM_cons, List.foldlM_cons]
    exact (step b a).next ih

theorem forM {f g : α → SessionM PUnit} (step : ∀ a, Parallel c Eq (f a) (g a)) (xs : List α) :
    Parallel c Eq (xs.forM f) (xs.forM g) := by
  induction xs with
  | nil => exact pure rfl
  | cons a xs ih => exact (step a).bind fun _ _ _ => ih

/-- A computation that describes entities of the catalog comes to the same through every cache. -/
theorem run {z : Traced α} (leaves : z.Leaves (Event.From c)) (slot slot' : Nat) :
    Parallel c Eq (run slot z) (run slot' z) := by
  intro s t alike
  rw [runFrom_run, runFrom_run]
  have kept := alike.of_kept (.foldl_absorb slot z.events s) (.foldl_absorb slot' z.events t)
    (alike.left.foldl_absorb leaves slot) (alike.right.foldl_absorb leaves slot')
  cases z.result with
  | error e => exact .error e kept
  | ok a => exact .ok rfl kept

end Parallel

/-! ## Looking up and describing -/

section Steps

variable (c : Catalog)

theorem parallel_checkSubject (subject : Subject) : Parallel c Eq (checkSubject subject) (checkSubject subject) := by
  refine .of_lookup (runFrom_checkSubject subject) (runFrom_checkSubject subject) fun s t alike => ?_
  rw [subjectCheck, subjectCheck, alike.left.catalog, alike.right.catalog]

theorem parallel_cacheSlot (name : String) : Parallel c Eq (cacheSlot name) (cacheSlot name) := by
  refine .of_lookup (runFrom_cacheSlot name) (runFrom_cacheSlot name) fun s t alike => ?_
  rw [slotOfCache, slotOfCache, slotOf, slotOf, Slots.find?, Slots.find?, alike.cacheNames]

theorem parallel_registrySlot (name : String) : Parallel c Eq (registrySlot name) (registrySlot name) := by
  refine .of_lookup (runFrom_registrySlot name) (runFrom_registrySlot name) fun s t alike => ?_
  rw [alike.registries]

theorem parallel_registry (name : String) : Parallel c Eq (registry name) (registry name) := by
  refine .of_lookup (runFrom_registry name) (runFrom_registry name) fun s t alike => ?_
  have same : s.registryIn = t.registryIn := by
    funext slot
    rw [registryIn, registryIn, alike.registries]
  rw [alike.registries, same]

/-- Which cache is used may depend on what it remembers; that there is one does not. -/
theorem parallel_openCache (name : Option String) :
    Parallel c (fun _ _ => True) (openCache name) (openCache name) := by
  cases name with
  | none => exact .pure trivial
  | some name => exact (parallel_cacheSlot c name).bind fun _ _ _ => Parallel.get.bind fun _ _ _ => .pure trivial

theorem parallel_describe (slot slot' : Nat) (subject : Subject) :
    Parallel c Eq (describe slot subject) (describe slot' subject) := by
  refine (parallel_checkSubject c subject).bind fun _ _ _ => Parallel.get.bind fun s t alike => ?_
  have same : s.plainContext slot = t.plainContext slot' := by
    have schemas : s.schemaOf slot = t.schemaOf slot' := by
      funext subject
      rw [alike.left.schemaOf_eq, alike.right.schemaOf_eq]
    rw [plainContext, plainContext, alike.settings, schemas]
  have schemas : (t.plainContext slot').Over c := alike.right.schemaOf_eq slot'
  rw [same]
  exact .run (leaves_describe schemas subject) slot slot'

/-! ## Making registries and compilers -/

theorem parallel_startRegistry (dialect : Option String) (start : RegistryStart) :
    Parallel c Eq (startRegistry dialect start) (startRegistry dialect start) := by
  cases start with
  | empty => exact .pure rfl
  | ofEntity subject preloads cache =>
    refine (parallel_openCache c cache).bind fun slot slot' _ => ?_
    refine (parallel_describe c slot slot' subject).next fun schema => ?_
    refine Parallel.get.bind fun s t alike => ?_
    rw [alike.settings]
    exact .liftM _
  | ofPreloads preloads =>
    refine Parallel.get.bind fun s t alike => ?_
    rw [alike.settings]
    exact .liftM _

/-- A draft that is registered in a registry, under the settings of now. -/
theorem parallel_registerDraft (r : Registry) (path : String) (draft : Config.Draft) :
    Parallel c Eq (do r.register path (← Config.ofDraft (← get).settings draft) : SessionM Registry)
      (do r.register path (← Config.ofDraft (← get).settings draft)) := by
  refine Parallel.get.bind fun s t alike => ?_
  rw [alike.settings]
  refine (Parallel.liftM _).next fun config => ?_
  exact .liftM _

theorem parallel_makeRegistry (draft : RegistryDraft) :
    Parallel c Eq (makeRegistry draft) (makeRegistry draft) := by
  refine (parallel_startRegistry c _ _).next fun start => ?_
  refine .foldlM ?_ _ _
  rintro r ⟨path, draft⟩
  exact parallel_registerDraft c r path draft

variable {c} in
theorem Alike.withRegistries (alike : Alike c s t) (registries : Slots Registry) :
    Alike c { s with registries } { t with registries } where
  left := ⟨alike.left.catalog, alike.left.remembered⟩
  right := ⟨alike.right.catalog, alike.right.remembered⟩
  settings := alike.settings
  cacheNames := alike.cacheNames
  cacheCount := alike.cacheCount
  registries := rfl
  compilers := alike.compilers

theorem parallel_openRegistry (choice : RegistryChoice) :
    Parallel c Eq (openRegistry choice) (openRegistry choice) := by
  cases choice with
  | none => exact .pure rfl
  | named name =>
    exact (parallel_registrySlot c name).returns _
  | made draft =>
    refine (parallel_makeRegistry c draft).bind ?_
    rintro r _ rfl s t alike
    have added := alike.withRegistries (t.registries.add r).2
    show Outcome c Eq (.ok (some (s.registries.add r).1), { s with registries := (s.registries.add r).2 })
      (.ok (some (t.registries.add r).1), { t with registries := (t.registries.add r).2 })
    rw [alike.registries]
    exact .ok rfl added

/-- Compilers that are made alike differ at most in their caches. -/
theorem parallel_openCompiler (options : Options) :
    Parallel c (fun x y => x.unplaced = y.unplaced) (openCompiler options) (openCompiler options) := by
  refine (parallel_openRegistry c options.registry).next fun registry => ?_
  refine (parallel_openCache c options.cache).bind fun slot slot' _ => ?_
  refine Parallel.get.bind fun s t alike => .pure ?_
  rw [alike.settings]
  rfl

theorem lookup_unplaced {xs ys : List (String × Compiler)}
    (each : List.Forall₂ (fun x y => x.1 = y.1 ∧ x.2.unplaced = y.2.unplaced) xs ys) (name : String) :
    (xs.lookup name).map Compiler.unplaced = (ys.lookup name).map Compiler.unplaced := by
  induction each with
  | nil => rfl
  | @cons x y xs ys head _ ih =>
    obtain ⟨key, x⟩ := x
    obtain ⟨_, y⟩ := y
    obtain ⟨rfl, same⟩ := head
    rw [List.lookup_cons, List.lookup_cons]
    by_cases asked : name == key
    · simpa [asked] using same
    · simpa [asked] using ih

theorem parallel_compiler (name : String) :
    Parallel c (fun x y => x.unplaced = y.unplaced) (compiler name) (compiler name) := by
  refine Parallel.get.bind fun s t alike => ?_
  have same := lookup_unplaced alike.compilers name
  cases first : s.compilers.lookup name with
  | none =>
    cases second : t.compilers.lookup name with
    | none => exact .throw _
    | some y => simp [first, second] at same
  | some x =>
    cases second : t.compilers.lookup name with
    | none => simp [first, second] at same
    | some y => exact .pure (by simpa [first, second] using same)

/-! ## Compiling -/

section Compiling

variable {c} {first second : Compiler} (same : first.unplaced = second.unplaced)

include same

theorem parallel_filters (source : Filter.Source) (subject : Subject) (table : Option String) :
    Parallel c Eq (filters first source subject table) (filters second source subject table) := by
  refine (Parallel.liftM source.read).next fun flts => ?_
  refine (parallel_checkSubject c subject).bind fun _ _ _ => Parallel.get.bind fun s t alike => ?_
  dsimp only
  rw [alike.contextOf_eq same]
  exact (Parallel.run (leaves_compileFilters (alike.schemas second) _ _ _) _ _).returns _

theorem parallel_search (term : String) (subject : Subject) (table : Option String) :
    Parallel c Eq (search first term subject table) (search second term subject table) := by
  refine (parallel_checkSubject c subject).bind fun _ _ _ => Parallel.get.bind fun s t alike => ?_
  dsimp only
  rw [alike.contextOf_eq same]
  exact (Parallel.run (leaves_compileSearch (alike.schemas second) _ _ _) _ _).returns _

theorem parallel_sorts (source : Sorting.Source) (subject : Subject) (table : Option String) (joined : List String) :
    Parallel c Eq (sorts first source subject table joined) (sorts second source subject table joined) := by
  have strict : first.strict = second.strict := congrArg (·.strict) same
  refine (Parallel.liftM source.read).next fun given => ?_
  refine (parallel_checkSubject c subject).bind fun _ _ _ => Parallel.get.bind fun s t alike => ?_
  dsimp only
  rw [alike.contextOf_eq same, strict]
  exact (Parallel.run (leaves_compileSorts (alike.schemas second) _ _ _ _) _ _).returns _

theorem parallel_query (source : Query.Source) (subject : Subject) (table : Option String) :
    Parallel c Eq (query first source subject table) (query second source subject table) := by
  have strict : first.strict = second.strict := congrArg (·.strict) same
  refine (Parallel.liftM source.read).next fun q => ?_
  refine (parallel_checkSubject c subject).bind fun _ _ _ => Parallel.get.bind fun s t alike => ?_
  dsimp only
  rw [alike.contextOf_eq same, strict]
  refine (Parallel.run (leaves_compileQuery (alike.schemas second) _ _ _ _) _ _).next fun compiled => ?_
  refine (Parallel.liftM _).next fun statement => ?_
  exact (Parallel.liftM _).returns _

end Compiling

/-! ## Requests -/

/-- A compiler as a caller gives it: the shared one, one that was made before, or a new one. -/
inductive CompilerChoice where
  | shared
  | named (name : String)
  | made (options : Options)

def CompilerChoice.opened : CompilerChoice → SessionM Compiler
  | .shared => return sharedCompiler
  | .named name => compiler name
  | .made options => openCompiler options

theorem parallel_choice (choice : CompilerChoice) :
    Parallel c (fun x y => x.unplaced = y.unplaced) choice.opened choice.opened := by
  cases choice with
  | shared => exact .pure rfl
  | named name => exact parallel_compiler c name
  | made options => exact parallel_openCompiler c options

/-- What can be asked of a session. -/
inductive Request where
  | assign (entries : List (String × Detail))
  | newCache (name : String)
  | clearCache (name : String)
  | describe (cache : String) (subject : Subject)
  | newRegistry (name : String) (draft : RegistryDraft)
  | nameRegistry (name other : String)
  | register (name path : String) (config : Config.Draft)
  | joinOf (name base : String) (config : Config.Draft) (inlined : Bool)
  | joinAt (name path base : String)
  | joinsAt (name base : String) (paths : List String) (inlined : Bool)
  | queryWithJoins (name query base : String) (paths : List String)
  | newCompiler (name : String) (options : Options)
  | filters (choice : CompilerChoice) (source : Filter.Source) (subject : Subject) (table : Option String)
  | search (choice : CompilerChoice) (term : String) (subject : Subject) (table : Option String)
  | sorts (choice : CompilerChoice) (source : Sorting.Source) (subject : Subject) (table : Option String)
      (joined : List String)
  | query (choice : CompilerChoice) (source : Query.Source) (subject : Subject) (table : Option String)

/-- What a session answers. -/
inductive Reply where
  | done
  | settings (settings : Settings)
  | schema (schema : Schema)
  | registry (r : Registry)
  | join (clause discriminator : String)
  | joins (clauses discriminators : List String)
  | text (text : String) (parts : List String)
  | fragment (fragment : Fragment)
  | answer (answer : Answer)

/-- Answers a request. -/
def Request.run : Request → SessionM Reply
  | .assign entries => return .settings (← Session.assign entries)
  | .newCache name => do
    Session.newCache name
    return .done
  | .clearCache name => do
    Session.clearCache name
    return .done
  | .describe cache subject => do
    let slot ← cacheSlot cache
    return .schema (← Session.describe slot subject)
  | .newRegistry name draft => return .registry (← Session.newRegistry name draft)
  | .nameRegistry name other => return .registry (← Session.nameRegistry name other)
  | .register name path config => return .registry (← Session.register name path config)
  | .joinOf name base config inlined => do
    let join ← Session.joinOf name base config inlined
    return .join join.1 join.2
  | .joinAt name path base => do
    let join ← Session.joinAt name path base
    return .join join.1 join.2
  | .joinsAt name base paths inlined => do
    let joins ← Session.joinsAt name base paths inlined
    return .joins joins.1 joins.2
  | .queryWithJoins name text base paths => do
    let joined ← Session.queryWithJoins name text base paths
    return .text joined.1 joined.2
  | .newCompiler name options => do
    let _ ← Session.newCompiler name options
    return .done
  | .filters choice source subject table => do
    return .fragment (← Session.filters (← choice.opened) source subject table)
  | .search choice term subject table => do
    return .fragment (← Session.search (← choice.opened) term subject table)
  | .sorts choice source subject table joined => do
    let order ← Session.sorts (← choice.opened) source subject table joined
    return .text order.1 order.2
  | .query choice source subject table => do
    return .answer (← Session.query (← choice.opened) source subject table)

theorem parallel_assign (entries : List (String × Detail)) : Parallel c Eq (assign entries) (assign entries) := by
  refine Parallel.bind (.forM ?_ entries) fun _ _ _ => ?_
  · rintro ⟨name, value⟩
    refine Parallel.get.bind fun s t alike => ?_
    rw [alike.settings]
    refine (Parallel.liftM _).next fun settings => ?_
    refine .modify fun s t alike => ?_
    exact { alike with
      left := ⟨alike.left.catalog, alike.left.remembered⟩
      right := ⟨alike.right.catalog, alike.right.remembered⟩
      settings := rfl }
  · exact Parallel.get.bind fun s t alike => .pure alike.settings

theorem parallel_newCache (name : String) : Parallel c Eq (newCache name) (newCache name) := by
  have added : ∀ {s : Session}, s.Sound c → ∀ cache ∈ (s.caches.add {}).2.items, ∀ schema ∈ cache.schemas,
      c.describe schema.entity = .ok schema := by
    intro s sound cache member
    rcases List.mem_append.mp member with old | new
    · exact sound.remembered cache old
    · rw [List.mem_singleton.mp new]
      simp
  refine .modify fun s t alike => ?_
  have names : (name, s.caches.items.length) :: s.caches.names = (name, t.caches.items.length) :: t.caches.names := by
    rw [alike.cacheNames, alike.cacheCount]
  have count : (s.caches.add {}).2.items.length = (t.caches.add {}).2.items.length := by
    simp [Slots.add, alike.cacheCount]
  exact { alike with
    left := ⟨alike.left.catalog, added alike.left⟩
    right := ⟨alike.right.catalog, added alike.right⟩
    cacheNames := names
    cacheCount := count }

/-- A session with other caches, under the same names. -/
def withCaches (s : Session) (items : List Cache) : Session := { s with caches := { s.caches with items } }

variable {c} in
theorem Alike.withCaches (alike : Alike c s t) {first second : List Cache}
    (left : (s.withCaches first).Sound c) (right : (t.withCaches second).Sound c)
    (count : first.length = second.length) : Alike c (s.withCaches first) (t.withCaches second) :=
  { alike with left := left, right := right, cacheCount := count }

variable {c} in
theorem Sound.clear (sound : s.Sound c) (slot : Nat) : (s.withCaches (s.caches.items.set slot {})).Sound c := by
  refine ⟨sound.catalog, fun cache member => ?_⟩
  rcases List.mem_or_eq_of_mem_set member with old | rfl
  · exact sound.remembered cache old
  · simp

theorem parallel_clearCache (name : String) : Parallel c Eq (clearCache name) (clearCache name) := by
  refine (parallel_cacheSlot c name).next fun slot => ?_
  refine .modify fun s t alike => ?_
  refine alike.withCaches (alike.left.clear slot) (alike.right.clear slot) ?_
  rw [List.length_set, List.length_set, alike.cacheCount]

theorem parallel_newRegistry (name : String) (draft : RegistryDraft) :
    Parallel c Eq (newRegistry name draft) (newRegistry name draft) := by
  refine (parallel_makeRegistry c draft).next fun r => ?_
  refine Parallel.bind (.modify fun s t alike => ?_) fun _ _ _ => .pure rfl
  rw [alike.registries]
  exact alike.withRegistries _

theorem parallel_nameRegistry (name other : String) :
    Parallel c Eq (nameRegistry name other) (nameRegistry name other) := by
  refine (parallel_registrySlot c other).next fun slot => ?_
  refine Parallel.bind (.modify fun s t alike => ?_) fun _ _ _ => parallel_registry c name
  rw [alike.registries]
  exact alike.withRegistries _

theorem parallel_register (name path : String) (draft : Config.Draft) :
    Parallel c Eq (register name path draft) (register name path draft) := by
  refine (parallel_registrySlot c name).next fun slot => ?_
  refine (parallel_registry c name).next fun r => ?_
  refine Parallel.get.bind fun s t alike => ?_
  rw [alike.settings]
  refine (Parallel.liftM _).next fun config => ?_
  refine (Parallel.liftM _).next fun registered => ?_
  refine Parallel.bind (.modify fun s t alike => ?_) fun _ _ _ => .pure rfl
  rw [alike.registries]
  exact alike.withRegistries _

theorem parallel_joinOf (name base : String) (draft : Config.Draft) (inlined : Bool) :
    Parallel c Eq (joinOf name base draft inlined) (joinOf name base draft inlined) := by
  refine (parallel_registry c name).next fun r => ?_
  refine Parallel.get.bind fun s t alike => ?_
  rw [alike.settings]
  refine (Parallel.liftM _).next fun config => ?_
  exact (Parallel.liftM _).returns _

theorem parallel_joinAt (name path base : String) :
    Parallel c Eq (joinAt name path base) (joinAt name path base) := by
  refine (parallel_registry c name).next fun r => ?_
  refine Parallel.get.bind fun s t alike => ?_
  rw [alike.settings]
  refine (Parallel.liftM _).next fun config => ?_
  exact (Parallel.liftM _).returns _

theorem parallel_joinsAt (name base : String) (paths : List String) (inlined : Bool) :
    Parallel c Eq (joinsAt name base paths inlined) (joinsAt name base paths inlined) := by
  refine (parallel_registry c name).next fun r => ?_
  refine Parallel.get.bind fun s t alike => ?_
  rw [alike.settings]
  exact (Parallel.liftM _).returns _

theorem parallel_queryWithJoins (name query base : String) (paths : List String) :
    Parallel c Eq (queryWithJoins name query base paths) (queryWithJoins name query base paths) :=
  (parallel_joinsAt c name base paths false).next fun _ => .pure rfl

theorem parallel_newCompiler (name : String) (options : Options) :
    Parallel c (fun _ _ => True) (newCompiler name options) (newCompiler name options) := by
  refine (parallel_openCompiler c options).bind fun first second same => ?_
  refine Parallel.bind (.modify fun s t alike => ?_) fun _ _ _ => .pure trivial
  exact { alike with
    left := ⟨alike.left.catalog, alike.left.remembered⟩
    right := ⟨alike.right.catalog, alike.right.remembered⟩
    compilers := .cons ⟨rfl, same⟩ alike.compilers }

/-- A request is answered alike by sessions that differ in what they remember. -/
theorem parallel_request (request : Request) : Parallel c Eq request.run request.run := by
  cases request with
  | assign entries => exact (parallel_assign c entries).returns _
  | newCache name => exact (parallel_newCache c name).bind fun _ _ _ => .pure rfl
  | clearCache name => exact (parallel_clearCache c name).bind fun _ _ _ => .pure rfl
  | describe cache subject =>
    refine (parallel_cacheSlot c cache).bind fun slot slot' _ => ?_
    exact (parallel_describe c slot slot' subject).returns _
  | newRegistry name draft => exact (parallel_newRegistry c name draft).returns _
  | nameRegistry name other => exact (parallel_nameRegistry c name other).returns _
  | register name path config => exact (parallel_register c name path config).returns _
  | joinOf name base config inlined => exact (parallel_joinOf c name base config inlined).returns _
  | joinAt name path base => exact (parallel_joinAt c name path base).returns _
  | joinsAt name base paths inlined => exact (parallel_joinsAt c name base paths inlined).returns _
  | queryWithJoins name text base paths => exact (parallel_queryWithJoins c name text base paths).returns _
  | newCompiler name options => exact (parallel_newCompiler c name options).bind fun _ _ _ => .pure rfl
  | filters choice source subject table =>
    refine (parallel_choice c choice).bind fun first second same => ?_
    exact (parallel_filters same source subject table).returns _
  | search choice term subject table =>
    refine (parallel_choice c choice).bind fun first second same => ?_
    exact (parallel_search same term subject table).returns _
  | sorts choice source subject table joined =>
    refine (parallel_choice c choice).bind fun first second same => ?_
    exact (parallel_sorts same source subject table joined).returns _
  | query choice source subject table =>
    refine (parallel_choice c choice).bind fun first second same => ?_
    exact (parallel_query same source subject table).returns _

end Steps

/-! ## Runs -/

/-- The answers to requests, one after the other, and the session that they leave. -/
def replies : List Request → Session → List (Except Error Reply) × Session
  | [], s => ([], s)
  | request :: requests, s =>
    let outcome := request.run.runFrom s
    let later := replies requests outcome.2
    (outcome.1 :: later.1, later.2)

/-- A session that has forgotten what some of its caches remember. -/
def emptied (which : Nat → Bool) (s : Session) : Session :=
  s.withCaches (s.caches.items.mapIdx fun slot cache => if which slot then {} else cache)

/-- The answers to requests, before each of which some caches are emptied. -/
def repliesEmptied : List ((Nat → Bool) × Request) → Session → List (Except Error Reply) × Session
  | [], s => ([], s)
  | (which, request) :: steps, s =>
    let outcome := request.run.runFrom (s.emptied which)
    let later := repliesEmptied steps outcome.2
    (outcome.1 :: later.1, later.2)

theorem Sound.emptied (sound : s.Sound c) (which : Nat → Bool) : (s.emptied which).Sound c := by
  refine ⟨sound.catalog, fun cache member => ?_⟩
  obtain ⟨slot, inside, rfl⟩ := List.mem_mapIdx.mp member
  split
  · simp
  · exact sound.remembered _ (List.getElem_mem inside)

theorem Alike.emptied (alike : Alike c s t) (which : Nat → Bool) : Alike c (s.emptied which) t :=
  { alike with
    left := alike.left.emptied which
    cacheCount := List.length_mapIdx.trans alike.cacheCount }

/-- The run with emptied caches goes along the run without. -/
theorem Alike.replies_eq (alike : Alike c s t) (steps : List ((Nat → Bool) × Request)) :
    (repliesEmptied steps s).1 = (replies (steps.map (·.2)) t).1 ∧
      Alike c (repliesEmptied steps s).2 (replies (steps.map (·.2)) t).2 := by
  induction steps generalizing s t with
  | nil => exact ⟨rfl, alike⟩
  | cons step steps ih =>
    obtain ⟨which, request⟩ := step
    have outcome := parallel_request c request (s.emptied which) t (alike.emptied which)
    simp only [repliesEmptied, List.map_cons, replies]
    obtain ⟨later, left⟩ := ih outcome.alike
    exact ⟨by rw [outcome.result_eq, later], left⟩

/-- A description that fails changes nothing. -/
theorem eq_of_describe_error {cache : String} {subject : Subject} {e : Error}
    (failed : (Request.describe cache subject).run.runFrom s = (.error e, t)) : t = s := by
  rw [Request.run, SessionM.runFrom_bind, runFrom_cacheSlot] at failed
  cases found : s.slotOfCache cache with
  | error unknown =>
    rw [found] at failed
    cases failed
    rfl
  | ok slot =>
    rw [found, SessionM.andThen_ok, SessionM.runFrom_bind, runFrom_describe] at failed
    cases outcome : s.described slot subject with
    | error e' =>
      rw [outcome] at failed
      cases failed
      rfl
    | ok schema =>
      rw [outcome] at failed
      cases failed

/-- A session at its start: nothing is remembered of the entities that are declared. -/
def start (settings : Settings) (decls : List EntityDecl) : Session := { settings, catalog := .ofDecls decls }

theorem sound_start (settings : Settings) (decls : List EntityDecl) : (start settings decls).Sound (.ofDecls decls) :=
  ⟨rfl, by simp [start]⟩

/-- Caches do not show. After any requests, what is remembered of an entity is what it is described as, and a
    description that fails changes nothing. The answers to all requests, errors among them, are those that would
    be given if any caches were emptied before each of them. -/
theorem replies_emptied (settings : Settings) (decls : List EntityDecl) (steps : List ((Nat → Bool) × Request))
    (t : Session) (reached : t = (replies (steps.map (·.2)) (start settings decls)).2) :
    (repliesEmptied steps (start settings decls)).1 = (replies (steps.map (·.2)) (start settings decls)).1 ∧
    (∀ cache ∈ t.caches.items, ∀ schema ∈ cache.schemas,
      (Catalog.ofDecls decls).describeExactly (.entity schema.entity) = .ok schema) ∧
    (∀ (request : Request) (which : Nat → Bool),
      (request.run.runFrom (t.emptied which)).1 = (request.run.runFrom t).1) ∧
    ∀ (cache : String) (subject : Subject) (e : Error) (u : Session),
      (Request.describe cache subject).run.runFrom t = (.error e, u) → u = t := by
  subst reached
  obtain ⟨same, alike⟩ := (Alike.refl (sound_start settings decls)).replies_eq steps
  refine ⟨same, alike.right.remembered, fun request which => ?_, fun cache subject e u => eq_of_describe_error⟩
  exact (parallel_request _ request _ _ ((Alike.refl alike.right).emptied which)).result_eq

/-- Volumes are described through a cache of their own, then searched through it; before that, it may be
    emptied. -/
def Samples.searches : List ((Nat → Bool) × Request) :=
  [(fun _ => false, .newCache "own"), (fun _ => false, .describe "own" (.entity "Volume")),
    (fun _ => true, .search (.made { cache := some "own" }) "a" (.entity "Volume") none)]

/-- The search goes through the cache that remembers volumes or, once this is emptied, through the shared one;
    it finds the same. What is no entity is not described, and nothing changes. -/
theorem replies_emptied_volumes :
    ∃ t, t = (replies (Samples.searches.map (·.2)) (start {} Samples.library)).2 ∧
      t.caches.items.map (·.size) = [0, 2] ∧
      (repliesEmptied Samples.searches (start {} Samples.library)).2.caches.items.map (·.size) = [2, 0] ∧
      (repliesEmptied Samples.searches (start {} Samples.library)).1 =
        (replies (Samples.searches.map (·.2)) (start {} Samples.library)).1 ∧
      ∃ e u, (Request.describe "own" (.other "Shelf")).run.runFrom t = (.error e, u) ∧ u = t := by
  obtain ⟨same, _, _, unchanged⟩ := replies_emptied {} Samples.library Samples.searches _ rfl
  obtain ⟨e, u, failed⟩ : ∃ e u, (Request.describe "own" (.other "Shelf")).run.runFrom
      (replies (Samples.searches.map (·.2)) (start {} Samples.library)).2 = (.error e, u) := ⟨_, _, rfl⟩
  exact ⟨_, rfl, by decide +kernel, by decide +kernel, same, e, u, failed, unchanged _ _ _ _ failed⟩

end Session

end RowQuery
