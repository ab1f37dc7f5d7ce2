import MethodLang.Program

/-!
# More steps

An evaluation that ends with some number of steps ends in the same way with every greater number.
So "it ends" and "how it ends" may be said without a number, and `Program.run_eq_of_le` says so
for whole runs.

One action refines another if it does the same wherever it ends at all. Every construct of the
language keeps refinement between its parts, which leaves one induction over the steps.
-/

namespace MethodLang

namespace Action

variable {σ α β : Type}

/-- The second action does what the first does, wherever the first ends. -/
def Refines (x y : Action σ α) : Prop := ∀ m, x m ≠ .unfinished → y m = x m

theorem Refines.refl (x : Action σ α) : x.Refines x := fun _ _ => rfl

theorem Refines.trans {x y z : Action σ α} (hxy : x.Refines y) (hyz : y.Refines z) :
    x.Refines z := fun m h => by
  have hy := hxy m h
  rw [hyz m (hy ▸ h), hy]

theorem unfinished_refines (x : Action σ α) : unfinished.Refines x := fun _ h => absurd rfl h

theorem Refines.bind {x y : Action σ α} {f g : α → Action σ β} (h : x.Refines y)
    (hf : ∀ a, (f a).Refines (g a)) : (x >>= f).Refines (y >>= g) := by
  intro m hm
  simp only [Bind.bind, Action.bind] at hm ⊢
  cases hx : x m with
  | done a m' =>
    rw [h m (by simp [hx]), hx]
    rw [hx] at hm
    exact hf a m' hm
  | failed e m' => rw [h m (by simp [hx]), hx]
  | unfinished => simp [hx] at hm

theorem Refines.inScope {parent : Option ScopeId} {f g : ScopeId → Action Machine α}
    (hf : ∀ scope, (f scope).Refines (g scope)) :
    (Action.inScope parent f).Refines (Action.inScope parent g) := by
  intro m hm
  simp only [Action.inScope] at hm ⊢
  cases hx : f m.scopes.next { m with scopes := m.scopes.push parent } with
  | done a m' => rw [hf _ _ (by simp [hx]), hx]
  | failed e m' => rw [hf _ _ (by simp [hx]), hx]
  | unfinished => simp [hx] at hm

theorem Refines.inCall {x y : Action Machine α} (name : String) (h : x.Refines y) :
    (Action.inCall name x).Refines (Action.inCall name y) := by
  intro m hm
  simp only [Action.inCall] at hm ⊢
  cases hx : x { m with calls := m.calls.push name } with
  | done a m' => rw [h _ (by simp [hx]), hx]
  | failed e m' => rw [h _ (by simp [hx]), hx]
  | unfinished => simp [hx] at hm

end Action

/-! ### Lists and calls -/

theorem execAll_refines {σ : Type} {f g : Stmt → Action σ Signal} (h : ∀ st, (f st).Refines (g st))
    (body : List Stmt) : (execAll f body).Refines (execAll g body) := by
  induction body with
  | nil => exact .refl _
  | cons st rest ih =>
    refine (h st).bind fun signal => ?_
    cases signal with
    | normal => exact ih
    | brk | ret => exact .refl _

theorem execOption_refines {σ : Type} {f g : Stmt → Action σ Signal}
    (h : ∀ st, (f st).Refines (g st)) (no : Option Stmt) :
    (execOption f no).Refines (execOption g no) := by
  cases no with
  | none => exact .refl _
  | some st => exact h st

theorem bindArgs_refines {f g : Expr → Action Machine Value} (h : ∀ e, (f e).Refines (g e))
    (callee : ScopeId) (miscount : EvalError) (params : List String) (args : List Expr) :
    (bindArgs f callee miscount params args).Refines (bindArgs g callee miscount params args) := by
  induction args generalizing params with
  | nil => cases params <;> exact .refl _
  | cons arg args ih =>
    cases params with
    | nil => exact (h arg).bind fun _ => .refl _
    | cons param params =>
      exact (h arg).bind fun _ => (Action.Refines.refl _).bind fun _ => ih params

theorem writeAll_refines {f g : Expr → Action Machine Value} (h : ∀ e, (f e).Refines (g e))
    (items : List WriteItem) : (writeAll f items).Refines (writeAll g items) := by
  induction items with
  | nil => exact .refl _
  | cons item rest ih =>
    cases item with
    | text content => exact (Action.Refines.refl _).bind fun _ => ih
    | expr value =>
      refine (h value).bind fun v => ?_
      cases v.render? with
      | none => exact .refl _
      | some content => exact (Action.Refines.refl _).bind fun _ => ih

theorem callMethod_refines (w : Setting) {eval eval' : Expr → Action Machine Value}
    {exec exec' : ScopeId → Stmt → Action Machine Signal}
    (heval : ∀ e, (eval e).Refines (eval' e))
    (hexec : ∀ scope st, (exec scope st).Refines (exec' scope st))
    (parent : Option ScopeId) (name : String) (args : List Expr) :
    (callMethod w eval exec parent name args).Refines
      (callMethod w eval' exec' parent name args) := by
  simp only [callMethod]
  split
  · exact .refl _
  · refine (Action.Refines.refl _).bind fun depth => ?_
    split
    · exact .refl _
    · refine Action.Refines.inScope fun callee => (bindArgs_refines heval _ _ _ _).bind fun _ => ?_
      exact (Action.Refines.refl _).bind fun _ =>
        (Action.Refines.inCall _ (execAll_refines (hexec _) _)).bind fun _ => .refl _

/-! ### Expressions and statements -/

theorem eval_refines_succ (w : Setting) (n : Nat) :
    (∀ scope e, (evalExpr w n scope e).Refines (evalExpr w (n + 1) scope e)) ∧
      ∀ scope st, (execStmt w n scope st).Refines (execStmt w (n + 1) scope st) := by
  induction n with
  | zero =>
    exact ⟨fun _ _ => Action.unfinished_refines _, fun _ _ => Action.unfinished_refines _⟩
  | succ n ih =>
    obtain ⟨heval, hexec⟩ := ih
    constructor
    · intro scope e
      cases e with
      | lit | var => exact .refl _
      | binary lhs op rhs =>
        rw [evalExpr, evalExpr]
        exact (heval scope lhs).bind fun _ => (heval scope rhs).bind fun _ => .refl _
      | call name args =>
        rw [evalExpr, evalExpr]
        exact callMethod_refines w (heval scope) hexec none name args
    · intro scope st
      cases st with
      | declare | brk | ret | read => exact .refl _
      | assign name value =>
        rw [execStmt, execStmt]
        exact (heval scope value).bind fun _ => .refl _
      | block body =>
        rw [execStmt, execStmt]
        exact Action.Refines.inScope fun inner => execAll_refines (hexec inner) body
      | seq body =>
        rw [execStmt, execStmt]
        exact execAll_refines (hexec scope) body
      | ite cond yes no =>
        rw [execStmt, execStmt]
        refine (heval scope cond).bind fun v => (Action.Refines.refl _).bind fun truth => ?_
        cases truth with
        | true => exact hexec scope yes
        | false => exact execOption_refines (hexec scope) no
      | doWhile cond body =>
        rw [execStmt, execStmt]
        refine (hexec scope body).bind fun signal => ?_
        cases signal with
        | brk | ret => exact .refl _
        | normal =>
          refine (heval scope cond).bind fun v => (Action.Refines.refl _).bind fun truth => ?_
          cases truth with
          | true => exact hexec scope (.doWhile cond body)
          | false => exact .refl _
      | write items =>
        rw [execStmt, execStmt]
        exact (writeAll_refines (heval scope) items).bind fun _ => .refl _
      | invoke value =>
        rw [execStmt, execStmt]
        exact (heval scope value).bind fun _ => .refl _

/-- More steps keep the outcome of an expression. -/
theorem evalExpr_refines (w : Setting) {n k : Nat} (h : n ≤ k) (scope : ScopeId) (e : Expr) :
    (evalExpr w n scope e).Refines (evalExpr w k scope e) := by
  induction h with
  | refl => exact .refl _
  | step _ ih => exact ih.trans ((eval_refines_succ w _).1 scope e)

/-- More steps keep the outcome of a statement. -/
theorem execStmt_refines (w : Setting) {n k : Nat} (h : n ≤ k) (scope : ScopeId) (st : Stmt) :
    (execStmt w n scope st).Refines (execStmt w k scope st) := by
  induction h with
  | refl => exact .refl _
  | step _ ih => exact ih.trans ((eval_refines_succ w _).2 scope st)

/-! ### Programs -/

namespace Program

theorem action_refines (p : Program) {n k : Nat} (h : n ≤ k) (entry : String) :
    (p.action n entry).Refines (p.action k entry) :=
  (execAll_refines (execStmt_refines p.setting h Scopes.root) p.fields).bind fun _ =>
    callMethod_refines p.setting (evalExpr_refines p.setting h Scopes.root)
      (execStmt_refines p.setting h) (some Scopes.root) entry []

/-- A run that ends with some number of steps ends alike with every greater number. -/
theorem run_eq_of_le (p : Program) {n k : Nat} (h : n ≤ k) (console : Console)
    (hn : p.run n console ≠ none) : p.run k console = p.run n console := by
  simp only [run] at hn ⊢
  split
  · rfl
  · next entry he =>
    rw [he] at hn
    simp only at hn
    rw [p.action_refines h entry ⟨.initial, #[], console⟩]
    intro hu
    simp [hu, after] at hn

end Program

end MethodLang
