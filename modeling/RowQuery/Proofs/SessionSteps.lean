import RowQuery.Proofs.Compilation
import RowQuery.Session

/-!
# Steps of a session

What the steps that others are made of come to, and what they leave as it is. Looking something up leaves the
whole session; a computation that describes entities changes at most what its cache remembers, and the log.
-/

namespace RowQuery

open RowQuery.Schema RowQuery.Join RowQuery.Compile

namespace SessionM

variable {α β : Type} {x : SessionM α} {f : α → SessionM β} {s t : Session}

/-- A step succeeds if both of its parts do. -/
theorem runFrom_bind_eq_ok {b : β} :
    runFrom (x >>= f) s = (.ok b, t) ↔ ∃ a u, x.runFrom s = (.ok a, u) ∧ (f a).runFrom u = (.ok b, t) := by
  rw [runFrom_bind]
  obtain ⟨outcome, u⟩ := x.runFrom s
  cases outcome with
  | error e => simp
  | ok a => simp

/-- Repeating steps that leave the session as it is comes to a computation that has no session. -/
theorem runFrom_foldlM {step : β → α → SessionM β} {own : β → α → Except Error β}
    (same : ∀ b a, (step b a).runFrom s = (own b a, s)) (xs : List α) (b : β) :
    (xs.foldlM step b).runFrom s = (xs.foldlM own b, s) := by
  induction xs generalizing b with
  | nil => rfl
  | cons a xs ih =>
    rw [List.foldlM_cons, List.foldlM_cons, runFrom_bind, same]
    cases own b a with
    | error e => rfl
    | ok b' => exact ih b'

end SessionM

namespace Session

open SessionM

variable {s t u : Session}

/-- A session that another has become, if only the log and what is remembered have changed. -/
structure Kept (s t : Session) : Prop where
  settings : t.settings = s.settings
  catalog : t.catalog = s.catalog
  cacheNames : t.caches.names = s.caches.names
  cacheCount : t.caches.items.length = s.caches.items.length
  registries : t.registries = s.registries
  compilers : t.compilers = s.compilers
  listening : t.listening = s.listening

namespace Kept

theorem refl (s : Session) : Kept s s := ⟨rfl, rfl, rfl, rfl, rfl, rfl, rfl⟩

theorem trans (first : Kept s t) (next : Kept t u) : Kept s u :=
  ⟨next.settings.trans first.settings, next.catalog.trans first.catalog,
    next.cacheNames.trans first.cacheNames, next.cacheCount.trans first.cacheCount,
    next.registries.trans first.registries, next.compilers.trans first.compilers,
    next.listening.trans first.listening⟩

theorem absorb (cache : Nat) (s : Session) (event : Event) : Kept s (s.absorb cache event) := by
  unfold Session.absorb
  split
  · exact ⟨rfl, rfl, rfl, rfl, rfl, rfl, rfl⟩
  · split
    · exact refl s
    · split
      · exact refl s
      · exact ⟨rfl, rfl, rfl, List.length_set, rfl, rfl, rfl⟩

theorem foldl_absorb (cache : Nat) (events : List Event) (s : Session) :
    Kept s (events.foldl (Session.absorb cache) s) := by
  induction events generalizing s with
  | nil => exact refl s
  | cons event events ih => exact (absorb cache s event).trans (ih _)

end Kept

theorem runFrom_run {α : Type} (cache : Nat) (x : Traced α) (s : Session) :
    (run cache x).runFrom s = (x.result, x.events.foldl (absorb cache) s) := by
  rw [run, runFrom_bind]
  rfl

/-! ## Looking up -/

/-- Whether an entity that is named is declared. -/
def subjectCheck (s : Session) (subject : Subject) : Except Error Unit :=
  match subject.entity? with
  | none => .ok ()
  | some name => if (s.catalog.get? name).isNone then .error (.unknownName name) else .ok ()

theorem runFrom_checkSubject (subject : Subject) (s : Session) :
    (checkSubject subject).runFrom s = (s.subjectCheck subject, s) := by
  unfold checkSubject subjectCheck
  cases subject.entity? with
  | none => rfl
  | some name =>
    simp only [runFrom_bind, runFrom_get, andThen_ok]
    split <;> rfl

/-- The slot that a name has among some slots. -/
def slotOf {α : Type} (slots : Slots α) (name : String) : Except Error Nat :=
  (slots.find? name).elim (.error (.unknownName name)) .ok

/-- The slot of a cache by its name. -/
def slotOfCache (s : Session) (name : String) : Except Error Nat :=
  if name == sharedName then .ok sharedCache else slotOf s.caches name

theorem runFrom_cacheSlot (name : String) (s : Session) :
    (cacheSlot name).runFrom s = (s.slotOfCache name, s) := by
  unfold cacheSlot slotOfCache
  split
  · rfl
  · simp only [runFrom_bind, runFrom_get, andThen_ok, slotOf]
    cases s.caches.find? name <;> rfl

theorem runFrom_registrySlot (name : String) (s : Session) :
    (registrySlot name).runFrom s = (slotOf s.registries name, s) := by
  unfold registrySlot slotOf
  simp only [runFrom_bind, runFrom_get, andThen_ok]
  cases s.registries.find? name <;> rfl

/-- What is in a slot of a session, which is empty if nothing is. -/
def registryIn (s : Session) (slot : Nat) : Registry := (s.registries.get? slot).getD {}

theorem runFrom_registry (name : String) (s : Session) :
    (registry name).runFrom s = ((slotOf s.registries name).map s.registryIn, s) := by
  rw [registry, runFrom_bind, runFrom_registrySlot]
  cases slotOf s.registries name <;> rfl

/-- The slot of the cache that is used where one may be named. -/
def slotToUse (s : Session) : Option String → Except Error Nat
  | none => .ok sharedCache
  | some name => (s.slotOfCache name).map fun slot =>
    if ((s.caches.get? slot).getD {}).isEmpty then sharedCache else slot

theorem runFrom_openCache (name : Option String) (s : Session) :
    (openCache name).runFrom s = (s.slotToUse name, s) := by
  cases name with
  | none => rfl
  | some name =>
    rw [openCache, runFrom_bind, runFrom_cacheSlot, slotToUse]
    cases s.slotOfCache name <;> rfl

/-! ## Describing -/

/-- The schema of a subject that is declared if it is named. -/
def described (s : Session) (cache : Nat) (subject : Subject) : Except Error Schema :=
  s.subjectCheck subject >>= fun _ => s.schemaOf cache subject

/-- An entity that is described is remembered; nothing is if it cannot be described. -/
theorem runFrom_describe (cache : Nat) (subject : Subject) (s : Session) :
    (describe cache subject).runFrom s = (s.described cache subject,
      (s.described cache subject).toOption.elim s fun schema => s.absorb cache (.described schema)) := by
  rw [describe, runFrom_bind, runFrom_checkSubject, described]
  cases s.subjectCheck subject with
  | error e => rfl
  | ok _ =>
    simp only [andThen_ok, runFrom_bind, runFrom_get, runFrom_run]
    show _ = (s.schemaOf cache subject, _)
    have same : (s.plainContext cache).describe subject = Traced.lift (s.schemaOf cache subject) >>= fun schema =>
      Traced.emit (.described schema) >>= fun _ => pure schema := rfl
    rw [same]
    cases s.schemaOf cache subject <;> rfl

theorem kept_of_describe {cache : Nat} {subject : Subject} {schema : Schema}
    (ok : (describe cache subject).runFrom s = (.ok schema, t)) :
    s.schemaOf cache subject = .ok schema ∧ Kept s t := by
  rw [runFrom_describe] at ok
  obtain ⟨isSchema, same⟩ := Prod.mk.inj ok
  obtain ⟨_, _, found⟩ := bind_eq_ok.mp isSchema
  rw [isSchema] at same
  have remembered : s.absorb cache (.described schema) = t := same
  exact ⟨found, remembered ▸ Kept.absorb cache s _⟩

end Session

end RowQuery
