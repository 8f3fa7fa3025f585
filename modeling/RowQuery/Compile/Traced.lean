import RowQuery.Log
import RowQuery.Schema.Cache

/-!
# Traced computations

A compilation yields a result or an error, and on the way leaves a trace: which entities it described
and what it recorded. The trace is kept on failure. It is only written, so the result of a
computation is the computation of its results: `result_bind`.
-/

namespace RowQuery.Compile

/-- What a computation did beside its result. -/
inductive Event where
  | described (schema : Schema)
  | recorded (r : Log.Record)
  deriving DecidableEq, Repr

/-- A result and the events that led to it. -/
structure Traced (α : Type) where
  result : Except Error α
  events : List Event

namespace Traced

variable {α β : Type}

/-- A result without events. -/
def lift (x : Except Error α) : Traced α := ⟨x, []⟩

/-- Goes on with the result, if there is one. -/
def andThen (x : Traced α) (f : α → Traced β) : Traced β :=
  match x.result with
  | .ok a => ⟨(f a).result, x.events ++ (f a).events⟩
  | .error e => ⟨.error e, x.events⟩

instance : Monad Traced where
  pure a := lift (.ok a)
  bind := andThen

instance : MonadLift (Except Error) Traced where
  monadLift := lift

instance : MonadExceptOf Error Traced where
  throw e := lift (.error e)
  tryCatch x handle := match x.result with
    | .ok _ => x
    | .error e => ⟨(handle e).result, x.events ++ (handle e).events⟩

/-- Leaves an event. -/
def emit (e : Event) : Traced Unit := ⟨.ok (), [e]⟩

/-- Leaves a record. -/
def note (r : Log.Record) : Traced Unit := emit (.recorded r)

/-- The outcome of a computation as its result; it does not fail. -/
def attempt (x : Traced α) : Traced (Except Error α) := ⟨.ok x.result, x.events⟩

@[simp] theorem result_lift (x : Except Error α) : (lift x).result = x := rfl

@[simp] theorem result_pure (a : α) : (pure a : Traced α).result = .ok a := rfl

@[simp] theorem result_bind (x : Traced α) (f : α → Traced β) :
    (x >>= f).result = x.result >>= fun a => (f a).result := by
  show (andThen x f).result = _
  unfold andThen
  cases h : x.result <;> rfl

@[simp] theorem result_attempt (x : Traced α) : x.attempt.result = .ok x.result := rfl

@[simp] theorem result_emit (e : Event) : (emit e).result = .ok () := rfl

end Traced

end RowQuery.Compile
