import MethodLang.Error
import MethodLang.Scopes.Bindings

/-!
# Scopes

All scopes of a run live in one arena and name their parents by index. They are opened and
released in stack order, so a parent is always older than its children. A name may be declared
only where it is not visible yet; a look-up follows the parents to the nearest scope that binds
the name, and therefore never meets a scope that merely lies below in the arena.
-/

namespace MethodLang

/-- A scope, named by its position in the arena. -/
@[ext] structure ScopeId where
  index : Nat
  deriving DecidableEq

/-- One scope: its variables and the scope around it, if there is one. -/
structure Frame where
  parent : Option ScopeId
  slots : Bindings
  deriving DecidableEq

/-- The arena of live scopes, oldest first. -/
structure Scopes where
  frames : Array Frame
  deriving DecidableEq

namespace Scopes

/-- The scope that is always there. -/
def root : ScopeId := ⟨0⟩

/-- The arena that holds the root scope alone, without names. -/
def initial : Scopes := ⟨#[⟨none, .empty⟩]⟩

/-- How many scopes are live. -/
def size (s : Scopes) : Nat := s.frames.size

/-- The scope that is opened next. -/
def next (s : Scopes) : ScopeId := ⟨s.size⟩

/-- What is in a scope, if it is live. -/
def frame? (s : Scopes) (scope : ScopeId) : Option Frame := s.frames[scope.index]?

/-- Open the next scope, empty, under a parent or detached. -/
def push (s : Scopes) (parent : Option ScopeId) : Scopes := ⟨s.frames.push ⟨parent, .empty⟩⟩

/-- Release a scope and everything opened after it. The root stays. -/
def release (s : Scopes) (scope : ScopeId) : Scopes := ⟨s.frames.shrink (max scope.index 1)⟩

/-- The nearest declaration of a name: the first scope among `scope`, its parent, and so on,
that binds the name, with the slot it binds it to. -/
def resolve (s : Scopes) (scope : ScopeId) (name : String) : Option (ScopeId × Slot) :=
  match s.frame? scope with
  | none => none
  | some frame =>
    match frame.slots.find? name with
    | some slot => some (scope, slot)
    | none =>
      match frame.parent with
      | none => none
      | some parent => if parent.index < scope.index then s.resolve parent name else none
termination_by scope.index

def isVisible (s : Scopes) (scope : ScopeId) (name : String) : Bool :=
  (s.resolve scope name).isSome

/-- Bind a name to a slot in one scope. -/
def put (s : Scopes) (scope : ScopeId) (name : String) (slot : Slot) : Scopes :=
  ⟨s.frames.modify scope.index fun frame => { frame with slots := frame.slots.insert name slot }⟩

/-- The slot of a visible variable. -/
def slot (s : Scopes) (scope : ScopeId) (name : String) : Except EvalError Slot :=
  match s.resolve scope name with
  | none => .error (.undeclaredVariable name)
  | some (_, slot) => .ok slot

/-- What a visible variable holds, assigned or not. -/
def lookup (s : Scopes) (scope : ScopeId) (name : String) : Except EvalError Value :=
  (s.slot scope name).map Slot.value

/-- The value of a visible variable that has been assigned. -/
def valueOf (s : Scopes) (scope : ScopeId) (name : String) : Except EvalError Value :=
  match s.resolve scope name with
  | none => .error (.undeclaredVariable name)
  | some (_, slot) =>
    if slot.assigned then .ok slot.value else .error (.uninitializedVariable name)

/-! ### Updates -/

/-- An update of an arena in place: it succeeds or fails, and leaves an arena in either case. -/
abbrev Update : Type := Scopes → Except EvalError Unit × Scopes

namespace Update

/-- Declare a variable without a value. -/
@[inline] def declare (scope : ScopeId) (name : String) (ty : Ty) : Update := fun s =>
  if s.isVisible scope name then (.error (.redeclaration name), s)
  else (.ok (), s.put scope name ⟨ty, false, .untyped⟩)

/-- Store a value in the nearest slot of that name, if the types agree. -/
@[inline] def assign (scope : ScopeId) (name : String) (value : Value) : Update := fun s =>
  match s.resolve scope name with
  | none => (.error (.undeclaredVariable name), s)
  | some (holder, slot) =>
    if slot.ty.accepts value.ty then
      (.ok (), s.put holder name { slot with assigned := true, value })
    else (.error (.typeMismatch (.assignment name slot.ty value.ty)), s)

/-- Declare a variable of the value's own type and then, in the arena that this leaves, assign the
value. -/
@[inline] def declareAndAssign (scope : ScopeId) (name : String) (value : Value) :
    Update := fun s =>
  match declare scope name value.ty s with
  | (.ok (), t) => assign scope name value t
  | (.error e, t) => (.error e, t)

/-- The arena after an update, if it succeeds. -/
def result (u : Update) (s : Scopes) : Except EvalError Scopes :=
  match u s with
  | (.ok (), t) => .ok t
  | (.error e, _) => .error e

end Update

/-- The arena after a declaration, if it succeeds. -/
def declare (s : Scopes) (scope : ScopeId) (name : String) (ty : Ty) : Except EvalError Scopes :=
  (Update.declare scope name ty).result s

/-- The arena after an assignment, if it succeeds. -/
def assign (s : Scopes) (scope : ScopeId) (name : String) (value : Value) :
    Except EvalError Scopes :=
  (Update.assign scope name value).result s

/-- The arena after a declaration with a value, if it succeeds. -/
def declareAndAssign (s : Scopes) (scope : ScopeId) (name : String) (value : Value) :
    Except EvalError Scopes :=
  (Update.declareAndAssign scope name value).result s

end Scopes

end MethodLang
