import MethodLang.Tree.Basic

/-!
# Parts of syntax trees

The immediate parts of an expression and of a statement. To show something of every expression,
show it of an expression whose parts have it; and likewise for statements.
-/

namespace MethodLang

namespace Expr

/-- The expressions that an expression is made of: the operands, or the arguments. -/
def parts : Expr → List Expr
  | .lit _ | .var _ => []
  | .binary lhs _ rhs => [lhs, rhs]
  | .call _ args => args

theorem sizeOf_lt_of_mem_parts {e part : Expr} (h : part ∈ e.parts) : sizeOf part < sizeOf e := by
  cases e with
  | lit | var => simp [parts] at h
  | binary lhs op rhs =>
    simp only [parts, List.mem_cons, List.not_mem_nil, or_false] at h
    rcases h with rfl | rfl
    · simp only [binary.sizeOf_spec]
      omega
    · simp only [binary.sizeOf_spec]
      omega
  | call name args =>
    have hlt := List.sizeOf_lt_of_mem h
    simp only [call.sizeOf_spec]
    simp only [parts] at hlt
    omega

/-- Induction over the parts of an expression. -/
@[elab_as_elim]
theorem parts_induction {motive : Expr → Prop}
    (step : ∀ e, (∀ part ∈ e.parts, motive part) → motive e) (e : Expr) : motive e :=
  step e fun part _ => parts_induction step part
termination_by sizeOf e
decreasing_by exact sizeOf_lt_of_mem_parts ‹_›

end Expr

namespace Stmt

/-- The expressions that a statement evaluates itself. -/
def exprs : Stmt → List Expr
  | .assign _ value | .invoke value => [value]
  | .ite cond _ _ | .doWhile cond _ => [cond]
  | .write items => items.filterMap fun
    | .expr value => some value
    | .text _ => none
  | .declare .. | .block _ | .seq _ | .brk | .ret | .read _ => []

/-- The statements that a statement is made of. -/
def parts : Stmt → List Stmt
  | .block body | .seq body => body
  | .ite _ yes no => yes :: no.toList
  | .doWhile _ body => [body]
  | .declare .. | .assign .. | .brk | .ret | .read _ | .write _ | .invoke _ => []

theorem sizeOf_lt_of_mem_parts {st part : Stmt} (h : part ∈ st.parts) :
    sizeOf part < sizeOf st := by
  cases st with
  | block body | seq body =>
    have hlt := List.sizeOf_lt_of_mem h
    simp only [block.sizeOf_spec, seq.sizeOf_spec]
    simp only [parts] at hlt
    omega
  | ite cond yes no =>
    simp only [parts, List.mem_cons, Option.mem_toList] at h
    rcases h with rfl | h
    · simp only [ite.sizeOf_spec]
      omega
    · cases h
      simp only [ite.sizeOf_spec, Option.some.sizeOf_spec]
      omega
  | doWhile cond body =>
    obtain rfl := List.mem_singleton.1 h
    simp only [doWhile.sizeOf_spec]
    omega
  | declare | assign | brk | ret | read | write | invoke => simp [parts] at h

/-- Induction over the parts of a statement. -/
@[elab_as_elim]
theorem parts_induction {motive : Stmt → Prop}
    (step : ∀ st, (∀ part ∈ st.parts, motive part) → motive st) (st : Stmt) : motive st :=
  step st fun part _ => parts_induction step part
termination_by sizeOf st
decreasing_by exact sizeOf_lt_of_mem_parts ‹_›

end Stmt

end MethodLang
