import MethodLang.Ty

/-!
# Values

A value carries its type. Equality compares type and content, so values of different types are
never equal.
-/

namespace MethodLang

/-- `untyped` is the absence of a value: what a method without a result gives back, and what an
unassigned slot holds. -/
inductive Value
  | untyped
  | int (n : Int64)
  | bool (b : Bool)
  deriving DecidableEq

/-- The value a constant stands for. -/
def Literal.value : Literal → Value
  | .int n => .int n
  | .bool b => .bool b

namespace Value

def ty : Value → Ty
  | untyped => .undefined
  | int _ => .int
  | bool _ => .bool

/-- The text that a write statement prints; the absent value has none. -/
def render? : Value → Option String
  | untyped => none
  | int n => some (toString n.toInt)
  | bool true => some "true"
  | bool false => some "false"

/-- The text that stands for a value in notices. -/
def display (v : Value) : String := v.render?.getD "<untyped>"

end Value

end MethodLang
