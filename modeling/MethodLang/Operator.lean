import MethodLang.Error

/-!
# Operators

Each operator belongs to a class, and the class alone decides which operand types are accepted.
Arithmetic is that of 64-bit integers: sums, differences and products wrap, quotients round
toward zero and a remainder has the sign of the dividend.
-/

namespace MethodLang

/-- Operators with the same typing rule. -/
inductive OpClass
  | arithmetic
  | logical
  | equality
  | relational
  deriving DecidableEq

namespace OpClass

/-- Operand types of a class: two integers, two truth values, or any type twice. -/
def accepts : OpClass → Ty → Ty → Bool
  | arithmetic, lhs, rhs | relational, lhs, rhs => lhs == .int && rhs == .int
  | logical, lhs, rhs => lhs == .bool && rhs == .bool
  | equality, lhs, rhs => lhs == rhs

end OpClass

namespace BinOp

def opClass : BinOp → OpClass
  | add | sub | mul | div | mod => .arithmetic
  | and | or => .logical
  | eq | ne => .equality
  | lt | gt | le | ge => .relational

/-- Apply an operator. Operand types are checked first, so a mismatch wins over a zero
divisor. -/
def apply (op : BinOp) (l r : Value) : Except EvalError Value :=
  match op, l, r with
  | add, .int a, .int b => .ok (.int (a + b))
  | sub, .int a, .int b => .ok (.int (a - b))
  | mul, .int a, .int b => .ok (.int (a * b))
  | div, .int a, .int b =>
    if b = 0 then .error (.divisionByZero .div) else .ok (.int (a / b))
  | mod, .int a, .int b =>
    if b = 0 then .error (.divisionByZero .mod) else .ok (.int (a % b))
  | lt, .int a, .int b => .ok (.bool (decide (a < b)))
  | gt, .int a, .int b => .ok (.bool (decide (b < a)))
  | le, .int a, .int b => .ok (.bool (decide (a ≤ b)))
  | ge, .int a, .int b => .ok (.bool (decide (b ≤ a)))
  | and, .bool a, .bool b => .ok (.bool (a && b))
  | or, .bool a, .bool b => .ok (.bool (a || b))
  | eq, l, r => if l.ty = r.ty then .ok (.bool (l == r)) else mismatch
  | ne, l, r => if l.ty = r.ty then .ok (.bool (l != r)) else mismatch
  | _, _, _ => mismatch
where
  mismatch : Except EvalError Value := .error (.typeMismatch (.operands op l.ty r.ty))

end BinOp

end MethodLang
