import MethodLang.Proofs.Lexical.Basic

/-!
# The variables of an expression

The lexical value of an expression depends on its own variables only: in two environments that
give each of them the same value, or the same error, the expression has the same value and does
the same to the console. What stands in the bodies of the methods that it calls is not asked for.
-/

namespace MethodLang

mutual

/-- The variables that occur in an expression, arguments of calls included. -/
def Expr.vars : Expr → List String
  | .lit _ => []
  | .var name => [name]
  | .binary lhs _ rhs => lhs.vars ++ rhs.vars
  | .call _ args => Expr.allVars args

/-- The variables that occur in expressions. -/
def Expr.allVars : List Expr → List String
  | [] => []
  | e :: es => e.vars ++ Expr.allVars es

end

theorem Expr.mem_allVars {x : String} {es : List Expr} :
    x ∈ allVars es ↔ ∃ e ∈ es, x ∈ e.vars := by
  induction es with
  | nil => simp [allVars]
  | cons e es ih => simp [allVars, ih]

namespace Lexical

theorem bindArgs_congr {eval eval' : Expr → Action Console Value} {args : List Expr}
    (h : ∀ arg ∈ args, eval arg = eval' arg) (miscount : EvalError) (params : List String) :
    bindArgs eval miscount params args = bindArgs eval' miscount params args := by
  induction args generalizing params with
  | nil => cases params <;> rfl
  | cons arg args ih =>
    have harg := h arg List.mem_cons_self
    have hargs := ih fun arg hmem => h arg (List.mem_cons_of_mem _ hmem)
    cases params with
    | nil => simp only [bindArgs, harg]
    | cons param params => simp only [bindArgs, harg, hargs]

theorem callMethod_congr {eval eval' : Expr → Action Console Value} {args : List Expr}
    (h : ∀ arg ∈ args, eval arg = eval' arg) (w : Setting)
    (exec : Activation → Stmt → Action State Signal) (depth : Nat) (name : String) :
    callMethod w eval exec depth name args = callMethod w eval' exec depth name args := by
  simp only [callMethod, bindArgs_congr h]

/-- In environments that agree on its variables, an expression has the same outcome. -/
theorem evalExpr_congr (w : Setting) {env env' : Env} {e : Expr}
    (h : ∀ x ∈ e.vars, env.valueOf x = env'.valueOf x) (n depth : Nat) :
    evalExpr w n depth env e = evalExpr w n depth env' e := by
  induction n generalizing e with
  | zero => rfl
  | succ n ih =>
    cases e with
    | lit l => rfl
    | var name => rw [evalExpr, evalExpr, h name (by simp [Expr.vars])]
    | binary lhs op rhs =>
      simp only [Expr.vars, List.mem_append] at h
      rw [evalExpr, evalExpr, ih fun x hx => h x (.inl hx), ih fun x hx => h x (.inr hx)]
    | call name args =>
      have hargs : ∀ arg ∈ args, evalExpr w n depth env arg = evalExpr w n depth env' arg :=
        fun arg harg => ih fun x hx => h x (Expr.mem_allVars.2 ⟨arg, harg, hx⟩)
      rw [evalExpr, evalExpr, callMethod_congr hargs]

end Lexical

end MethodLang
