import RowQuery.Compile.Statement
import RowQuery.Session.Slots

/-!
# Sessions

A session holds what lasts from one request to the next: the settings, the declared entities, the
schema caches, the registries and compilers that were made, and the log. A compiler keeps the registry
and the cache it was made with, even if their names are given to others later, so both are kept in
slots and named by slot.
-/

namespace RowQuery

open RowQuery.Schema RowQuery.Sql RowQuery.Join RowQuery.Compile

/-- A compiler: what it was made with. -/
structure Compiler where
  registry : Option Nat
  cache : Nat
  language : Option String
  dialect : Option String
  /-- Whether a sort that no field matches is an error. -/
  strict : Detail
  maxDepth : Detail
  deriving DecidableEq, Repr

/-- What lasts from one request to the next. The first cache is the one that is shared by all. -/
structure Session where
  settings : Settings := {}
  catalog : Catalog := []
  caches : Slots Cache := { items := [{}] }
  registries : Slots Registry := {}
  compilers : List (String × Compiler) := []
  log : List Log.Record := []
  /-- The level from which on records are listened to, if they are. -/
  listening : Option Log.Level := none

/-- A step of a session. What it changes stays changed if it fails. -/
abbrev SessionM := ExceptT Error (StateM Session)

namespace SessionM

variable {α β : Type}

/-- What a step comes to from a session, and the session that it leaves. -/
def runFrom (x : SessionM α) (s : Session) : Except Error α × Session := x.run.run s

/-- Goes on with the result of a step, if there is one. -/
def andThen (f : α → SessionM β) : Except Error α × Session → Except Error β × Session
  | (.ok a, s) => (f a).runFrom s
  | (.error e, s) => (.error e, s)

variable (s : Session)

@[simp] theorem andThen_ok (f : α → SessionM β) (a : α) : andThen f (.ok a, s) = (f a).runFrom s := rfl

@[simp] theorem andThen_error (f : α → SessionM β) (e : Error) : andThen f (.error e, s) = (.error e, s) := rfl

@[simp] theorem runFrom_pure (a : α) : runFrom (pure a) s = (.ok a, s) := rfl

@[simp] theorem runFrom_throw (e : Error) : runFrom (throw e : SessionM α) s = (.error e, s) := rfl

@[simp] theorem runFrom_get : runFrom get s = (.ok s, s) := rfl

@[simp] theorem runFrom_modify (f : Session → Session) : runFrom (modify f) s = (.ok ⟨⟩, f s) := rfl

@[simp] theorem runFrom_liftM (x : Except Error α) : runFrom (liftM x : SessionM α) s = (x, s) := rfl

/-- A step goes on from the session that it has come to. -/
theorem runFrom_bind (x : SessionM α) (f : α → SessionM β) :
    runFrom (x >>= f) s = andThen f (x.runFrom s) := by
  show ExceptT.bindCont f (x s).1 (x s).2 = andThen f (x s)
  obtain ⟨outcome, t⟩ := x s
  cases outcome <;> rfl

end SessionM

/-- How a registry starts. -/
inductive RegistryStart where
  | empty
  /-- The entity is described through the cache that is named, if one is. -/
  | ofEntity (subject : Subject) (preloads : List String) (cache : Option String := none)
  | ofPreloads (preloads : List String)

/-- A registry to be made: how it starts and what is then registered. -/
structure RegistryDraft where
  dialect : Option String := none
  start : RegistryStart := .empty
  entries : List (String × Config.Draft) := []

/-- A registry as a caller gives it. -/
inductive RegistryChoice where
  | none
  | named (name : String)
  | made (draft : RegistryDraft)

/-- The options of a compiler. -/
structure Options where
  registry : RegistryChoice := .none
  cache : Option String := none
  language : Option String := none
  dialect : Option String := none
  strict : Option Detail := none
  maxDepth : Option Detail := none

/-- Some SQL, the values bound in it and the registered paths it goes through. -/
structure Fragment where
  sql : String
  args : List Value
  paths : List String

/-- The text of a whole compiled query with its two statements. -/
structure Answer where
  compiled : Compiled
  statement : String × List Value
  count : String × List Value

namespace Session

/-- The record of a schema that a cache takes in. -/
def cachedRecord (schema : Schema) : Log.Record :=
  Log.record .debug "SchemaCache"
    ("Schema cached: entity=" ++ schema.entity ++ " table=" ++ schema.table ++ " fields=" ++
      toString schema.fields.length)

/-- Takes in one event of a computation that used a cache. -/
def absorb (cache : Nat) (s : Session) : Event → Session
  | .recorded r => { s with log := s.log ++ [r] }
  | .described schema =>
    match s.caches.get? cache with
    | none => s
    | some known =>
      if (known.get? schema.entity).isSome then s
      else { s with
        caches := s.caches.set cache (known.insert schema), log := s.log ++ [cachedRecord schema] }

/-- The slot of the cache that is shared by all. -/
def sharedCache : Nat := 0

/-- The name of the cache that is shared by all. -/
def sharedName : String := "global"

/-- Runs a computation that describes entities through a cache. -/
def run {α : Type} (cache : Nat) (x : Traced α) : SessionM α := do
  modify fun s => x.events.foldl (absorb cache) s
  x.result

/-- The schema of a subject through a cache. -/
def schemaOf (s : Session) (cache : Nat) (subject : Subject) : Except Error Schema :=
  ((s.caches.get? cache).getD {}).describe s.catalog subject

/-- A context with nothing but the settings and the schemas. -/
def plainContext (s : Session) (cache : Nat) : Context :=
  { settings := s.settings, schemaOf := s.schemaOf cache, maxDepth := s.settings.maxRelationDepth }

/-- Checks that an entity that is named is declared. -/
def checkSubject (subject : Subject) : SessionM Unit := do
  match subject.entity? with
  | none => return
  | some name => if ((← get).catalog.get? name).isNone then throw (.unknownName name)

/-- Describes a subject through a cache. -/
def describe (cache : Nat) (subject : Subject) : SessionM Schema := do
  checkSubject subject
  run cache (((← get).plainContext cache).describe subject)

/-- The slot of a named cache. -/
def cacheSlot (name : String) : SessionM Nat := do
  if name == sharedName then return sharedCache
  match (← get).caches.find? name with
  | some slot => return slot
  | none => throw (.unknownName name)

/-- The slot of the cache that is used where one may be named: the shared one, unless another is named
    that is not empty. -/
def openCache (name : Option String) : SessionM Nat := do
  match name with
  | none => return sharedCache
  | some name =>
    let slot ← cacheSlot name
    return if (((← get).caches.get? slot).getD {}).isEmpty then sharedCache else slot

/-- The slot of a named registry. -/
def registrySlot (name : String) : SessionM Nat := do
  match (← get).registries.find? name with
  | some slot => return slot
  | none => throw (.unknownName name)

/-- A named registry. -/
def registry (name : String) : SessionM Registry := do
  let slot ← registrySlot name
  return ((← get).registries.get? slot).getD {}

/-- The registry that another starts as. -/
def startRegistry (dialect : Option String) : RegistryStart → SessionM Registry
  | .empty => return { dialect }
  | .ofEntity subject preloads cache => do
    let schema ← describe (← openCache cache) subject
    Registry.ofSchema (← get).settings dialect schema preloads
  | .ofPreloads preloads => do Registry.ofPreloads (← get).settings dialect preloads

/-- Makes a registry from a draft. -/
def makeRegistry (draft : RegistryDraft) : SessionM Registry := do
  let start ← startRegistry draft.dialect draft.start
  draft.entries.foldlM (fun r (path, config) => do
    r.register path (← Config.ofDraft (← get).settings config)) start

/-- The slot of the registry that a caller gives, if one is given. -/
def openRegistry : RegistryChoice → SessionM (Option Nat)
  | .none => return none
  | .named name => return some (← registrySlot name)
  | .made draft => do
    let r ← makeRegistry draft
    modifyGet fun s =>
      let (slot, registries) := s.registries.add r
      (some slot, { s with registries })

/-- Makes a compiler. The settings of now decide what the options leave open. -/
def openCompiler (options : Options) : SessionM Compiler := do
  let registry ← openRegistry options.registry
  let cache ← openCache options.cache
  let settings := (← get).settings
  return {
    registry, cache, language := options.language, dialect := options.dialect
    strict := options.strict.getD settings.strictSort
    maxDepth := options.maxDepth.getD settings.maxRelationDepth }

/-- The compiler that was made before any setting was changed. -/
def sharedCompiler : Compiler :=
  let settings : Settings := {}
  { registry := none, cache := sharedCache, language := none, dialect := none
    strict := settings.strictSort, maxDepth := settings.maxRelationDepth }

/-- The context of a compiler, with its registry and its cache as they are now. -/
def contextOf (c : Compiler) (s : Session) : Context :=
  { settings := s.settings, schemaOf := s.schemaOf c.cache
    registry := c.registry.bind s.registries.get?, language := c.language, dialect := c.dialect
    maxDepth := c.maxDepth }

/-- Compiles filters. -/
def filters (c : Compiler) (source : Filter.Source) (subject : Subject) (table : Option String) :
    SessionM Fragment := do
  let filters ← source.read
  checkSubject subject
  let ctx := contextOf c (← get)
  let part ← run c.cache (compileFilters ctx filters subject table)
  return { sql := part.text ctx.style, args := part.args, paths := part.paths }

/-- Compiles a search. -/
def search (c : Compiler) (term : String) (subject : Subject) (table : Option String) :
    SessionM Fragment := do
  checkSubject subject
  let ctx := contextOf c (← get)
  let part ← run c.cache (compileSearch ctx term subject table)
  return { sql := part.text ctx.style, args := part.args, paths := part.paths }

/-- Compiles sorts; gives the order and the joins that it needs. -/
def sorts (c : Compiler) (source : Sorting.Source) (subject : Subject) (table : Option String)
    (joined : List String) : SessionM (String × List String) := do
  let sorts ← source.read
  checkSubject subject
  let ctx := contextOf c (← get)
  let part ← run c.cache (compileSorts ctx { strict := c.strict.isTrue, joined } sorts subject table)
  let joinStyle := ctx.sortRegistry.style ctx.settings
  return (part.text ctx.style, part.joins.map (·.text joinStyle))

/-- Compiles a query, and puts its statements together. -/
def query (c : Compiler) (source : Query.Source) (subject : Subject) (table : Option String) :
    SessionM Answer := do
  let q ← source.read
  checkSubject subject
  let ctx := contextOf c (← get)
  let compiled ← run c.cache (compileQuery ctx c.strict.isTrue q subject table)
  let statement ← compiled.statement ctx.settings
  let count ← compiled.count ctx.settings
  return { compiled, statement, count }

/-- Assigns settings one after the other. -/
def assign (entries : List (String × Detail)) : SessionM Settings := do
  entries.forM fun (name, value) => do
    let settings ← (← get).settings.assign name value
    modify fun s => { s with settings }
  return (← get).settings

/-- Makes a registry under a name. -/
def newRegistry (name : String) (draft : RegistryDraft) : SessionM Registry := do
  let r ← makeRegistry draft
  modify fun s =>
    let (slot, registries) := s.registries.add r
    { s with registries := registries.rename name slot }
  return r

/-- Gives a registry that exists another name. -/
def nameRegistry (name other : String) : SessionM Registry := do
  let slot ← registrySlot other
  modify fun s => { s with registries := s.registries.rename name slot }
  registry name

/-- Registers a configuration in a named registry. -/
def register (name path : String) (config : Config.Draft) : SessionM Registry := do
  let slot ← registrySlot name
  let r ← registry name
  let r ← r.register path (← Config.ofDraft (← get).settings config)
  modify fun s => { s with registries := s.registries.set slot r }
  return r

/-- The texts of a join clause and of its discriminator, which is empty if there is none. -/
def joinTexts (settings : Settings) (r : Registry) (join : JoinClause × Option Discriminator) :
    String × String :=
  let style := r.style settings
  (join.1.text style, (join.2.map fun x => x.predicate.text style).getD "")

/-- The texts of join clauses and of their discriminators. -/
def joinListTexts (settings : Settings) (r : Registry)
    (joins : List JoinClause × List Discriminator) : List String × List String :=
  let style := r.style settings
  (joins.1.map (·.text style), joins.2.map fun x => x.predicate.text style)

/-- The join of a configuration in a named registry. -/
def joinOf (name base : String) (config : Config.Draft) (inlined : Bool) :
    SessionM (String × String) := do
  let r ← registry name
  let settings := (← get).settings
  let config ← Config.ofDraft settings config
  return joinTexts settings r (← r.join settings base config inlined)

/-- The join of a registered path. -/
def joinAt (name path base : String) : SessionM (String × String) := do
  let r ← registry name
  let settings := (← get).settings
  return joinTexts settings r (← r.join settings base (← r.require path) false)

/-- The joins of registered paths. -/
def joinsAt (name base : String) (paths : List String) (inlined : Bool) :
    SessionM (List String × List String) := do
  let r ← registry name
  let settings := (← get).settings
  return joinListTexts settings r (← r.joins settings base paths inlined)

/-- A query with the joins of registered paths behind it, and their discriminators. -/
def queryWithJoins (name query base : String) (paths : List String) :
    SessionM (String × List String) := do
  let (joins, discriminators) ← joinsAt name base paths false
  return (" ".intercalate (query :: joins), discriminators)

/-- Makes a compiler under a name. -/
def newCompiler (name : String) (options : Options) : SessionM Compiler := do
  let c ← openCompiler options
  modify fun s => { s with compilers := (name, c) :: s.compilers }
  return c

/-- A named compiler. -/
def compiler (name : String) : SessionM Compiler := do
  match (← get).compilers.lookup name with
  | some c => return c
  | none => throw (.unknownName name)

/-- Makes an empty cache under a name. -/
def newCache (name : String) : SessionM Unit :=
  modify fun s =>
    let (slot, caches) := s.caches.add {}
    { s with caches := caches.rename name slot }

/-- A named cache. -/
def cache (name : String) : SessionM Cache := do
  let slot ← cacheSlot name
  return ((← get).caches.get? slot).getD {}

/-- Empties a named cache. -/
def clearCache (name : String) : SessionM Unit := do
  let slot ← cacheSlot name
  modify fun s => { s with caches := s.caches.set slot {} }

/-- Adds a record to the log. -/
def record (r : Log.Record) : SessionM Unit :=
  modify fun s => { s with log := s.log ++ [r] }

/-- Writes a template and its arguments to the log. They are put together only if the record is
    listened to. -/
def write (level : Log.Level) (component template : String) (args : List Detail) :
    SessionM Unit := do
  match (← get).listening with
  | none => return
  | some least =>
    if level.isKeptFrom least then
      record (← Log.templateRecord level component template args)

/-- Listens to the records of a computation from a level on; gives its result and the records. -/
def listen {α : Type} (level : Log.Level) (x : StateM Session α) :
    StateM Session (α × List Log.Record) := do
  let before ← get
  set { before with listening := some level }
  let result ← x
  modify fun s => { s with listening := before.listening }
  return (result, Log.keptFrom level ((← get).log.drop before.log.length))

end Session

end RowQuery
