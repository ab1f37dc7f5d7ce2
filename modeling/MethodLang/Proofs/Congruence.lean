import MethodLang.Proofs.Leaves
import MethodLang.Proofs.Parts

/-!
# Relations that evaluation keeps

Evaluation is put together from a few actions on the machine by sequencing and by opening scopes.
A relation between actions that relates each of the few to itself and is kept by both ways of
putting actions together is a congruence. It relates

* lists inside statements and calls, as soon as it relates what stands in them (`bindArgs`,
  `execAll`, ...);
* an expression to itself as soon as its parts and the calls in it are related
  (`evalExpr_succ`), and a statement likewise (`execStmt_succ`);
* all expressions and statements, under two settings, as soon as calls are related
  (`evalExpr_execStmt`).

A relation between machines that every step keeps makes such a congruence with one side: whatever
evaluation leaves is then related to where it started (`Machine.Stable`).
-/

namespace MethodLang

namespace Action

variable {α β : Type}

/-- Ask for the scopes and the active calls. -/
def ask (f : Scopes → Array String → Except EvalError α) : Action Machine α := fun m =>
  match f m.scopes m.calls with
  | .ok a => .done a m
  | .error e => .failed e m

theorem ofExcept_eq_ask (r : Except EvalError α) :
    (ofExcept r : Action Machine α) = ask fun _ _ => r := by
  cases r <;> rfl

/-- A relation between actions that what evaluation does to a machine keeps. -/
structure Congruence (R : (α : Type) → Action Machine α → Action Machine α → Prop) : Prop where
  ask {α : Type} (f : Scopes → Array String → Except EvalError α) : R α (.ask f) (.ask f)
  bind {α β : Type} {x y : Action Machine α} {f g : α → Action Machine β} (h : R α x y)
    (hf : ∀ a, R β (f a) (g a)) : R β (x >>= f) (y >>= g)
  declare (scope : ScopeId) (name : String) (ty : Ty) :
    R Unit (.update (.declare scope name ty)) (.update (.declare scope name ty))
  assign (scope : ScopeId) (name : String) (value : Value) :
    R Unit (.update (.assign scope name value)) (.update (.assign scope name value))
  readInt : R Int64 (.onConsole Console.readInt) (.onConsole Console.readInt)
  put (text : String) : R Unit (.onConsole (·.put text)) (.onConsole (·.put text))
  inScope {α : Type} (parent : Option ScopeId) {f g : ScopeId → Action Machine α}
    (h : ∀ scope, R α (f scope) (g scope)) : R α (.inScope parent f) (.inScope parent g)

namespace Congruence

variable {R : (α : Type) → Action Machine α → Action Machine α → Prop}

protected theorem pure (h : Congruence R) (a : α) : R α (Pure.pure a) (Pure.pure a) :=
  h.ask fun _ _ => .ok a

theorem declareAndAssign (h : Congruence R) (scope : ScopeId) (name : String) (value : Value) :
    R Unit (.update (.declareAndAssign scope name value))
      (.update (.declareAndAssign scope name value)) := by
  rw [update_declareAndAssign]
  exact h.bind (h.declare scope name value.ty) fun _ => h.assign scope name value

theorem fail (h : Congruence R) (e : EvalError) : R α (.fail e) (.fail e) :=
  h.ask fun _ _ => .error e

theorem ofExcept (h : Congruence R) (r : Except EvalError α) : R α (.ofExcept r) (.ofExcept r) := by
  rw [ofExcept_eq_ask]
  exact h.ask fun _ _ => r

theorem query (h : Congruence R) (f : Scopes → Except EvalError α) : R α (.query f) (.query f) :=
  h.ask fun s _ => f s

theorem depth (h : Congruence R) : R Nat .depth .depth :=
  h.ask fun _ calls => .ok calls.size

theorem innermost (h : Congruence R) : R (Option String) .innermost .innermost :=
  h.ask fun _ calls => .ok calls.back?

/-! ### Lists inside statements and calls -/

theorem execAll (h : Congruence R) {exec exec' : Stmt → Action Machine Signal} (body : List Stmt)
    (hexec : ∀ st ∈ body, R Signal (exec st) (exec' st)) :
    R Signal (execAll exec body) (MethodLang.execAll exec' body) := by
  induction body with
  | nil => exact h.pure _
  | cons st rest ih =>
    rw [List.forall_mem_cons] at hexec
    apply h.bind hexec.1
    intro signal
    cases signal with
    | normal => exact ih hexec.2
    | brk | ret => exact h.pure _

theorem execOption (h : Congruence R) {exec exec' : Stmt → Action Machine Signal}
    (no : Option Stmt) (hexec : ∀ st ∈ no, R Signal (exec st) (exec' st)) :
    R Signal (execOption exec no) (MethodLang.execOption exec' no) := by
  cases no with
  | none => exact h.pure _
  | some st => exact hexec st rfl

theorem bindArgs (h : Congruence R) {eval eval' : Expr → Action Machine Value} (callee : ScopeId)
    (miscount : EvalError) (params : List String) (args : List Expr)
    (heval : ∀ arg ∈ args, R Value (eval arg) (eval' arg)) :
    R Unit (bindArgs eval callee miscount params args)
      (MethodLang.bindArgs eval' callee miscount params args) := by
  induction args generalizing params with
  | nil =>
    cases params with
    | nil => exact h.pure _
    | cons => exact h.fail _
  | cons arg args ih =>
    rw [List.forall_mem_cons] at heval
    cases params with
    | nil => exact h.bind heval.1 fun _ => h.fail _
    | cons param params =>
      apply h.bind heval.1
      intro value
      exact h.bind (h.declareAndAssign callee param value) fun _ => ih params heval.2

theorem writeAll (h : Congruence R) {eval eval' : Expr → Action Machine Value}
    (items : List WriteItem)
    (heval : ∀ e ∈ (Stmt.write items).exprs, R Value (eval e) (eval' e)) :
    R Unit (writeAll eval items) (MethodLang.writeAll eval' items) := by
  induction items with
  | nil => exact h.pure _
  | cons item rest ih =>
    cases item with
    | text content =>
      exact h.bind (h.put (content ++ " ")) fun _ => ih heval
    | expr value =>
      simp only [Stmt.exprs, List.filterMap_cons, List.forall_mem_cons] at heval
      apply h.bind heval.1
      intro v
      cases v.render? with
      | none => exact h.fail _
      | some content => exact h.bind (h.put (content ++ " ")) fun _ => ih heval.2

theorem readAll (h : Congruence R) (scope : ScopeId) (targets : List String) :
    R Unit (readAll scope targets) (MethodLang.readAll scope targets) := by
  induction targets with
  | nil => exact h.pure _
  | cons target rest ih =>
    exact h.bind h.readInt fun n => h.bind (h.assign scope target (.int n)) fun _ => ih

theorem findResult (h : Congruence R) (scope : ScopeId) :
    R Unit (findResult scope) (MethodLang.findResult scope) := by
  apply h.bind h.innermost
  intro name
  cases name with
  | none => exact h.pure _
  | some name => exact h.bind (h.query _) fun _ => h.pure _

/-! ### Calls -/

variable {eval eval' : Expr → Action Machine Value}
  {exec exec' : ScopeId → Stmt → Action Machine Signal}

/-- What is done in the scope of a method. -/
theorem inMethod (h : Congruence R) (m : Method) (parent : Option ScopeId) (miscount : EvalError)
    (args : List Expr) (hargs : ∀ arg ∈ args, R Value (eval arg) (eval' arg))
    (hbody : ∀ callee, R Signal (.inCall m.name (MethodLang.execAll (exec callee) m.body))
      (.inCall m.name (MethodLang.execAll (exec' callee) m.body))) :
    R Value
      (.inScope parent fun callee => do
        MethodLang.bindArgs eval callee miscount m.params args
        runMethod exec callee m)
      (.inScope parent fun callee => do
        MethodLang.bindArgs eval' callee miscount m.params args
        runMethod exec' callee m) := by
  apply h.inScope
  intro callee
  apply h.bind (h.bindArgs callee miscount m.params args hargs)
  intro _
  apply h.bind (h.declare callee m.name .int)
  intro _
  apply h.bind (hbody callee)
  intro _
  split
  · exact h.pure _
  · exact h.query _

/-- Under one setting, calls are related if the bodies of methods are. -/
theorem callMethod (h : Congruence R) (w : Setting) (parent : Option ScopeId) (name : String)
    (args : List Expr) (hargs : ∀ arg ∈ args, R Value (eval arg) (eval' arg))
    (hbody : ∀ m, w.method? name = some m → ∀ callee,
      R Signal (.inCall m.name (MethodLang.execAll (exec callee) m.body))
        (.inCall m.name (MethodLang.execAll (exec' callee) m.body))) :
    R Value (callMethod w eval exec parent name args)
      (MethodLang.callMethod w eval' exec' parent name args) := by
  simp only [MethodLang.callMethod]
  cases hm : w.method? name with
  | none => exact h.fail _
  | some m =>
    apply h.bind h.depth
    intro depth
    split
    · exact h.fail _
    · exact h.inMethod m parent _ args hargs (hbody m hm)

/-! ### Expressions and statements -/

variable {w w' : Setting} {n n' : Nat}

/-- An expression, from its parts. -/
theorem evalExpr_succ (h : Congruence R) (scope : ScopeId) (e : Expr)
    (heval : ∀ part ∈ e.parts, R Value (evalExpr w n scope part) (evalExpr w' n' scope part))
    (hcall : ∀ name args, e = .call name args →
      R Value (invoke w n scope name args) (invoke w' n' scope name args)) :
    R Value (evalExpr w (n + 1) scope e) (evalExpr w' (n' + 1) scope e) := by
  cases e with
  | lit l => exact h.pure _
  | var name => exact h.query _
  | binary lhs op rhs =>
    rw [evalExpr, evalExpr]
    apply h.bind (heval lhs (by simp [Expr.parts]))
    intro l
    apply h.bind (heval rhs (by simp [Expr.parts]))
    intro r
    exact h.ofExcept _
  | call name args =>
    rw [evalExpr, evalExpr]
    exact hcall name args rfl

/-- A statement, from its parts. A loop is a part of itself, with one step less. -/
theorem execStmt_succ (h : Congruence R) (scope : ScopeId) (st : Stmt)
    (heval : ∀ e ∈ st.exprs, R Value (evalExpr w n scope e) (evalExpr w' n' scope e))
    (hexec : ∀ part ∈ st.parts, ∀ scope,
      R Signal (execStmt w n scope part) (execStmt w' n' scope part))
    (hloop : ∀ cond body, st = .doWhile cond body →
      R Signal (execStmt w n scope st) (execStmt w' n' scope st)) :
    R Signal (execStmt w (n + 1) scope st) (execStmt w' (n' + 1) scope st) := by
  cases st with
  | declare name ty =>
    rw [execStmt, execStmt]
    exact h.bind (h.declare scope name _) fun _ => h.pure _
  | assign name value =>
    rw [execStmt, execStmt]
    apply h.bind (heval value (by simp [Stmt.exprs]))
    intro v
    exact h.bind (h.assign scope name v) fun _ => h.pure _
  | block body =>
    rw [execStmt, execStmt]
    apply h.inScope
    intro inner
    exact h.execAll body fun st hst => hexec st hst inner
  | seq body =>
    rw [execStmt, execStmt]
    exact h.execAll body fun st hst => hexec st hst scope
  | ite cond yes no =>
    rw [execStmt, execStmt]
    apply h.bind (heval cond (by simp [Stmt.exprs]))
    intro v
    apply h.bind (h.ofExcept _)
    intro truth
    cases truth with
    | true => exact hexec yes (by simp [Stmt.parts]) scope
    | false =>
      apply h.execOption no
      intro st hst
      exact hexec st (by simpa [Stmt.parts] using .inr hst) scope
  | doWhile cond body =>
    rw [execStmt, execStmt]
    apply h.bind (hexec body (by simp [Stmt.parts]) scope)
    intro signal
    cases signal with
    | brk | ret => exact h.pure _
    | normal =>
      apply h.bind (heval cond (by simp [Stmt.exprs]))
      intro v
      apply h.bind (h.ofExcept _)
      intro truth
      cases truth with
      | true => exact hloop cond body rfl
      | false => exact h.pure _
  | brk => exact h.pure _
  | ret =>
    rw [execStmt, execStmt]
    exact h.bind (h.findResult scope) fun _ => h.pure _
  | read targets =>
    rw [execStmt, execStmt]
    exact h.bind (h.readAll scope targets) fun _ => h.pure _
  | write items =>
    rw [execStmt, execStmt]
    apply h.bind (h.writeAll items heval)
    intro _
    exact h.bind (h.put "\n") fun _ => h.pure _
  | invoke value =>
    rw [execStmt, execStmt]
    exact h.bind (heval value (by simp [Stmt.exprs])) fun _ => h.pure _

/-- A congruence that relates calls under two settings relates evaluation and execution under
them. -/
theorem evalExpr_execStmt (h : Congruence R) (hunfinished : ∀ α, R α .unfinished .unfinished)
    (hcall : ∀ {eval eval' : Expr → Action Machine Value}
      {exec exec' : ScopeId → Stmt → Action Machine Signal},
      (∀ e, R Value (eval e) (eval' e)) →
      (∀ scope st, R Signal (exec scope st) (exec' scope st)) → ∀ name args,
      R Value (MethodLang.callMethod w eval exec none name args)
        (MethodLang.callMethod w' eval' exec' none name args)) (n : Nat) :
    (∀ scope e, R Value (evalExpr w n scope e) (evalExpr w' n scope e)) ∧
      ∀ scope st, R Signal (execStmt w n scope st) (execStmt w' n scope st) := by
  induction n with
  | zero => exact ⟨fun _ _ => hunfinished _, fun _ _ => hunfinished _⟩
  | succ n ih =>
    obtain ⟨heval, hexec⟩ := ih
    constructor
    · intro scope e
      apply h.evalExpr_succ scope e fun part _ => heval scope part
      intro name args _
      exact hcall (heval scope) hexec name args
    · intro scope st
      apply h.execStmt_succ scope st (fun e _ => heval scope e) fun part _ scope => hexec scope part
      intro _ _ _
      exact hexec scope st

end Congruence

end Action

/-! ### Relations between machines -/

open MethodLang.Action (Congruence Keeps)

/-- A relation between machines that every step of evaluation keeps. -/
structure Machine.Stable (R : Machine → Machine → Prop) : Prop where
  declare {m : Machine} {scope : ScopeId} {name : String} {ty : Ty} {scopes : Scopes}
    (h : m.scopes.declare scope name ty = .ok scopes) : R m { m with scopes }
  assign {m : Machine} {scope : ScopeId} {name : String} {value : Value} {scopes : Scopes}
    (h : m.scopes.assign scope name value = .ok scopes) : R m { m with scopes }
  readInt (m : Machine) : R m { m with console := m.console.readInt.2 }
  put (m : Machine) (text : String) : R m { m with console := (m.console.put text).2 }
  inScope {m m' : Machine} (parent : Option ScopeId)
    (h : R { m with scopes := m.scopes.push parent } m') :
    R m { m' with scopes := m'.scopes.release m.scopes.next }
  inCall {m m' : Machine} (name : String) (h : R { m with calls := m.calls.push name } m') :
    R m { m' with calls := m'.calls.pop }

/-- If the first machine has a property, the second has it. -/
def Machine.Preserves (P : Machine → Prop) (m m' : Machine) : Prop := P m → P m'

instance (P : Machine → Prop) : IsPreorder Machine (Machine.Preserves P) where
  refl _ := id
  trans _ _ _ h h' := h' ∘ h

namespace Machine.Stable

variable {R : Machine → Machine → Prop} {α : Type}

theorem keeps_update {u : Scopes.Update} [IsPreorder Machine R] (hu : u.Atomic)
    (h : ∀ {m : Machine} {scopes}, u.result m.scopes = .ok scopes → R m { m with scopes }) :
    (Action.update u).Keeps R :=
  fun m => Action.leaves_update hu (refl_of R m) fun _ => h

theorem keeps_onConsole {f : Console → Except ConsoleError α × Console}
    (h : ∀ m : Machine, R m { m with console := (f m.console).2 }) :
    (Action.onConsole f).Keeps R := by
  intro m
  have hm := h m
  simp only [Action.onConsole]
  generalize f m.console = answer at hm ⊢
  rcases answer with ⟨e | a, console⟩
  · exact hm
  · exact hm

theorem keeps_inCall (h : Stable R) (name : String) {x : Action Machine α} (hx : x.Keeps R) :
    (Action.inCall name x).Keeps R := by
  intro m
  rw [Action.inCall_apply, Outcome.leaves_mapState]
  exact (hx _).mono fun m' hm' => h.inCall name hm'

variable [IsPreorder Machine R]

/-- With one side, such a relation is a congruence. -/
theorem congruence (h : Stable R) : Congruence fun _ x _ => x.Keeps R where
  ask f m := by
    simp only [Action.ask]
    cases f m.scopes m.calls with
    | ok a => exact refl_of R m
    | error e => exact refl_of R m
  bind hx hf := .bind hx hf
  declare scope name ty := keeps_update (.declare scope name ty) h.declare
  assign scope name value := keeps_update (.assign scope name value) h.assign
  readInt := keeps_onConsole h.readInt
  put text := keeps_onConsole fun m => h.put m text
  inScope parent f _ hf := by
    intro m
    rw [Action.inScope_apply, Outcome.leaves_mapState]
    exact (hf _ _).mono fun m' hm' => h.inScope parent hm'

theorem keeps_execAll (h : Stable R) {exec : Stmt → Action Machine Signal}
    (hexec : ∀ st, (exec st).Keeps R) (body : List Stmt) : (execAll exec body).Keeps R :=
  @Congruence.execAll _ h.congruence exec exec body fun st _ => hexec st

theorem keeps_bindArgs (h : Stable R) {eval : Expr → Action Machine Value}
    (heval : ∀ e, (eval e).Keeps R) (callee : ScopeId) (miscount : EvalError)
    (params : List String) (args : List Expr) :
    (bindArgs eval callee miscount params args).Keeps R :=
  @Congruence.bindArgs _ h.congruence eval eval callee miscount params args fun arg _ => heval arg

theorem keeps_callMethod (h : Stable R) (w : Setting) {eval : Expr → Action Machine Value}
    {exec : ScopeId → Stmt → Action Machine Signal} (heval : ∀ e, (eval e).Keeps R)
    (hexec : ∀ scope st, (exec scope st).Keeps R) (parent : Option ScopeId) (name : String)
    (args : List Expr) : (callMethod w eval exec parent name args).Keeps R := by
  have hbody : ∀ (m : Method) callee,
      (Action.inCall m.name (execAll (exec callee) m.body)).Keeps R := by
    intro m callee
    apply h.keeps_inCall
    exact h.keeps_execAll (hexec callee) m.body
  exact @Congruence.callMethod _ eval eval exec exec h.congruence w parent name args
    (fun arg _ => heval arg) fun m _ => hbody m

theorem keeps_evalExpr_execStmt (h : Stable R) (w : Setting) (n : Nat) :
    (∀ scope e, (evalExpr w n scope e).Keeps R) ∧
      ∀ scope st, (execStmt w n scope st).Keeps R := by
  apply @Congruence.evalExpr_execStmt _ w w h.congruence
  · exact fun _ => .unfinished
  · exact fun heval hexec name args => h.keeps_callMethod w heval hexec none name args

theorem keeps_evalExpr (h : Stable R) (w : Setting) (n : Nat) (scope : ScopeId) (e : Expr) :
    (evalExpr w n scope e).Keeps R :=
  (h.keeps_evalExpr_execStmt w n).1 scope e

theorem keeps_execStmt (h : Stable R) (w : Setting) (n : Nat) (scope : ScopeId) (st : Stmt) :
    (execStmt w n scope st).Keeps R :=
  (h.keeps_evalExpr_execStmt w n).2 scope st

theorem keeps_invoke (h : Stable R) (w : Setting) (n : Nat) (scope : ScopeId) (name : String)
    (args : List Expr) : (invoke w n scope name args).Keeps R :=
  h.keeps_callMethod w (h.keeps_evalExpr w n scope) (h.keeps_execStmt w n) none name args

theorem keeps_invokeEntry (h : Stable R) (w : Setting) (n : Nat) (name : String) :
    (invokeEntry w n name).Keeps R :=
  h.keeps_callMethod w (h.keeps_evalExpr w n Scopes.root) (h.keeps_execStmt w n) _ name []

theorem keeps_action (h : Stable R) (p : Program) (n : Nat) (entry : String) :
    (p.action n entry).Keeps R :=
  Action.Keeps.bind (h.keeps_execAll (h.keeps_execStmt p.setting n Scopes.root) p.fields) fun _ =>
    h.keeps_invokeEntry p.setting n entry

end Machine.Stable

end MethodLang
