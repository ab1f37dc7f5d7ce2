import MethodLang.Scopes.Bindings
import MethodLang.Error

/-!
# Environments

The variables that a place in a program can see, without an arena: the bindings of every scope
around it, innermost first. A look-up finds the nearest binding, a declaration binds in front,
and an assignment replaces the nearest slot.
-/

namespace MethodLang

/-- Bindings of the scopes around a place, innermost first. -/
abbrev Env := List Bindings

namespace Env

/-- The nearest slot of a name. -/
def slot? (env : Env) (name : String) : Option Slot := env.findSome? (·.find? name)

/-- The value of a visible variable that has been assigned. -/
def valueOf (env : Env) (name : String) : Except EvalError Value :=
  match env.slot? name with
  | none => .error (.undeclaredVariable name)
  | some slot => if slot.assigned then .ok slot.value else .error (.uninitializedVariable name)

/-- What a visible variable holds, assigned or not. -/
def lookup (env : Env) (name : String) : Except EvalError Value :=
  match env.slot? name with
  | none => .error (.undeclaredVariable name)
  | some slot => .ok slot.value

/-- Bind a name in front. -/
def bindFront (name : String) (slot : Slot) : Env → Env
  | [] => []
  | b :: rest => b.insert name slot :: rest

/-- Put a slot in the place of the nearest one of that name. -/
def store (name : String) (slot : Slot) : Env → Env
  | [] => []
  | b :: rest =>
    match b.find? name with
    | some _ => b.insert name slot :: rest
    | none => b :: store name slot rest

/-- Bind a name that is not visible yet in front. -/
def introduce (env : Env) (name : String) (slot : Slot) : Except EvalError Env :=
  match env.slot? name with
  | some _ => .error (.redeclaration name)
  | none => .ok (env.bindFront name slot)

/-- Declare a variable without a value. -/
def declare (env : Env) (name : String) (ty : Ty) : Except EvalError Env :=
  env.introduce name ⟨ty, false, .untyped⟩

/-- Declare a variable of the value's own type that holds the value. -/
def declareAndAssign (env : Env) (name : String) (value : Value) : Except EvalError Env :=
  env.introduce name ⟨value.ty, true, value⟩

/-- Store a value in the nearest slot of that name, if the types agree. -/
def assign (env : Env) (name : String) (value : Value) : Except EvalError Env :=
  match env.slot? name with
  | none => .error (.undeclaredVariable name)
  | some slot =>
    if slot.ty.accepts value.ty then .ok (env.store name ⟨slot.ty, true, value⟩)
    else .error (.typeMismatch (.assignment name slot.ty value.ty))

/-! ### Reading along an environment -/

theorem slot?_cons (b : Bindings) (env : Env) (name : String) :
    slot? (b :: env) name = (b.find? name).or (slot? env name) := by
  simp only [slot?, List.findSome?_cons]
  cases b.find? name <;> rfl

theorem store_cons_of_find? {b : Bindings} {name : String} {old : Slot}
    (h : b.find? name = some old) (slot : Slot) (env : Env) :
    store name slot (b :: env) = b.insert name slot :: env := by
  simp [store, h]

theorem store_cons_of_not_find? {b : Bindings} {name : String} (h : b.find? name = none)
    (slot : Slot) (env : Env) : store name slot (b :: env) = b :: store name slot env := by
  simp [store, h]

end Env

end MethodLang
