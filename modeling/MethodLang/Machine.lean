import MethodLang.Action
import MethodLang.Console
import MethodLang.Scopes.Basic

/-!
# The machine

What a program does to its surroundings: it opens and releases scopes, declares and assigns
variables in them, enters and leaves methods, and uses the console.
-/

namespace MethodLang

/-- What a running program changes. -/
structure Machine where
  scopes : Scopes
  /-- Names of the methods that are being executed, innermost last. -/
  calls : Array String
  console : Console
  deriving DecidableEq

namespace Action

variable {α : Type}

/-- Ask the scopes. -/
@[inline] def query (f : Scopes → Except EvalError α) : Action Machine α :=
  fun m => match f m.scopes with
    | .ok a => .done a m
    | .error e => .failed e m

/-- Update the scopes. -/
@[inline] def update (u : Scopes.Update) : Action Machine Unit :=
  fun m => match u m.scopes with
    | (.ok (), scopes) => .done () { m with scopes }
    | (.error e, scopes) => .failed e { m with scopes }

/-- A declaration with a value is a declaration and then an assignment. -/
theorem update_declareAndAssign (scope : ScopeId) (name : String) (value : Value) :
    update (.declareAndAssign scope name value) =
      (do update (.declare scope name value.ty)
          update (.assign scope name value)) := by
  funext m
  simp only [update, Scopes.Update.declareAndAssign, bind, Action.bind]
  rcases Scopes.Update.declare scope name value.ty m.scopes with ⟨e | _, t⟩
  · rfl
  · rfl

/-- Use the console. -/
@[inline] def onConsole (f : Console → Except ConsoleError α × Console) : Action Machine α :=
  fun m => match f m.console with
    | (.ok a, console) => .done a { m with console }
    | (.error e, console) => .failed (.console e) { m with console }

/-- Act in a new scope, and release it at the end, on an error too. -/
@[inline] def inScope (parent : Option ScopeId) (body : ScopeId → Action Machine α) :
    Action Machine α :=
  fun m =>
    let scope := m.scopes.next
    match body scope { m with scopes := m.scopes.push parent } with
    | .done a m => .done a { m with scopes := m.scopes.release scope }
    | .failed e m => .failed e { m with scopes := m.scopes.release scope }
    | .unfinished => .unfinished

/-- How many calls are active. -/
@[inline] def depth : Action Machine Nat := fun m => .done m.calls.size m

/-- The name of the innermost method, if any call is active. -/
@[inline] def innermost : Action Machine (Option String) := fun m => .done m.calls.back? m

@[simp] theorem depth_bind_apply {β : Type} (f : Nat → Action Machine β) (m : Machine) :
    (depth >>= f) m = f m.calls.size m := rfl

@[simp] theorem innermost_bind_apply {β : Type} (f : Option String → Action Machine β)
    (m : Machine) : (innermost >>= f) m = f m.calls.back? m := rfl

/-- Act inside a method, and leave it at the end, on an error too. -/
@[inline] def inCall (name : String) (body : Action Machine α) : Action Machine α :=
  fun m =>
    match body { m with calls := m.calls.push name } with
    | .done a m => .done a { m with calls := m.calls.pop }
    | .failed e m => .failed e { m with calls := m.calls.pop }
    | .unfinished => .unfinished

theorem inScope_apply (parent : Option ScopeId) (body : ScopeId → Action Machine α) (m : Machine) :
    inScope parent body m =
      (body m.scopes.next { m with scopes := m.scopes.push parent }).mapState fun m' =>
        { m' with scopes := m'.scopes.release m.scopes.next } := by
  rw [inScope]
  cases body m.scopes.next { m with scopes := m.scopes.push parent } <;> rfl

theorem inCall_apply (name : String) (body : Action Machine α) (m : Machine) :
    inCall name body m =
      (body { m with calls := m.calls.push name }).mapState fun m' =>
        { m' with calls := m'.calls.pop } := by
  rw [inCall]
  cases body { m with calls := m.calls.push name } <;> rfl

end Action

end MethodLang
