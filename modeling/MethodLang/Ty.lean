import MethodLang.Tree.Basic

/-!
# Types

Three scalar types. A type name that is not known, like a missing one, means the undefined type;
there are no conversions, so a slot takes exactly the values of its own type.
-/

namespace MethodLang

/-- `undefined` is the type of what was never produced: the result of a method without a
result, and anything declared with an unknown type name. -/
inductive Ty
  | undefined
  | int
  | bool
  deriving DecidableEq

namespace Ty

/-- How messages show a type. -/
def display : Ty → String
  | undefined => "undefined type"
  | int => "int"
  | bool => "boolean"

/-- The type that a name in the program denotes. -/
def ofName (name : TyName) : Ty :=
  if name.text = "int" then int
  else if name.text = "boolean" then bool
  else undefined

/-- The type that an optional name denotes. -/
def ofName? : Option TyName → Ty
  | none => undefined
  | some name => ofName name

/-- Whether a slot of type `slot` may hold a value of type `value`. -/
def accepts (slot value : Ty) : Bool := slot == value

@[simp] theorem accepts_iff {slot value : Ty} : slot.accepts value = true ↔ slot = value := by
  simp [accepts]

end Ty

end MethodLang
