import MethodLang.Error

/-!
# Actions

An action starts from a state and ends with a result or an error, and with the state as it is
then. An error does not undo what came before it. An action that needs more steps than it was
given does not end at all; that is an outcome of its own, not an error.
-/

namespace MethodLang

inductive Outcome (σ α : Type) where
  | done (value : α) (state : σ)
  | failed (cause : EvalError) (state : σ)
  | unfinished
  deriving DecidableEq

/-- The same outcome on other states. -/
def Outcome.mapState {σ τ α : Type} (f : σ → τ) : Outcome σ α → Outcome τ α
  | done a s => done a (f s)
  | failed e s => failed e (f s)
  | unfinished => unfinished

@[simp] theorem Outcome.mapState_id {σ α : Type} (x : Outcome σ α) : x.mapState id = x := by
  cases x <;> rfl

def Action (σ α : Type) : Type := σ → Outcome σ α

namespace Action

variable {σ α β : Type}

@[always_inline, inline] protected def pure (a : α) : Action σ α := fun s => .done a s

/-- Sequencing: an error, or running out of steps, ends the whole. -/
@[always_inline, inline] protected def bind (x : Action σ α) (f : α → Action σ β) :
    Action σ β :=
  fun s =>
    match x s with
    | .done a s => f a s
    | .failed e s => .failed e s
    | .unfinished => .unfinished

@[always_inline] instance : Monad (Action σ) where
  pure := Action.pure
  bind := Action.bind

instance : LawfulMonad (Action σ) :=
  LawfulMonad.mk' (Action σ)
    (fun x => funext fun s => by simp only [Functor.map, Action.bind]; cases x s <;> rfl)
    (fun _ _ => rfl)
    (fun x f g => funext fun s => by simp only [bind, Action.bind]; cases x s <;> rfl)

@[inline] def fail (e : EvalError) : Action σ α := fun s => .failed e s

/-- Out of steps. -/
@[inline] def unfinished : Action σ α := fun _ => .unfinished

@[inline] def ofExcept : Except EvalError α → Action σ α
  | .ok a => pure a
  | .error e => fail e

end Action

end MethodLang
