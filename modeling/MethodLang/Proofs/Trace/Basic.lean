import MethodLang.Program

/-!
# Evaluation with a trace

Evaluation once more, with a record of every use that it makes of the arena: look-ups,
declarations and assignments, and scopes that are opened and released, each with the arena as it is
at that moment. The record is there also for an evaluation that fails or runs out of steps, up to
where it fails or stops; what an evaluation that never ends does is in the records for all numbers
of steps.

* `Traced.evalExpr` and `Traced.execStmt` follow the evaluation of expressions and statements;
* `traces_evalExpr`, `traces_execStmt` and `traces_action` say that but for the record they are that
  evaluation.
-/

namespace MethodLang

/-- One use of the arena. -/
inductive Use
  /-- A look-up. -/
  | find (scope : ScopeId) (name : String)
  | declare (scope : ScopeId) (name : String)
  | assign (scope : ScopeId) (name : String)
  /-- A scope is opened. -/
  | enter (parent : Option ScopeId)
  | release (scope : ScopeId)
  deriving DecidableEq

/-- A use of the arena, with the arena as it is just before. -/
structure Moment where
  arena : Scopes
  use : Use
  deriving DecidableEq

/-- An action with the moments at which it uses the arena, in order. -/
def Traced (α : Type) : Type := Machine → List Moment × Outcome Machine α

namespace Traced

variable {α β : Type}

/-! ### Steps -/

/-- An action that uses the arena as noted. -/
def noting (note : Scopes → List Moment) (x : Action Machine α) : Traced α :=
  fun m => (note m.scopes, x m)

/-- An action that does not use the arena. -/
def quiet (x : Action Machine α) : Traced α := noting (fun _ => []) x

protected def pure (a : α) : Traced α := quiet (Pure.pure a)

/-- What comes after an error, or after running out of steps, uses nothing. -/
protected def bind (x : Traced α) (f : α → Traced β) : Traced β := fun m =>
  match x m with
  | (moments, .done a m') => (moments ++ (f a m').1, (f a m').2)
  | (moments, .failed e m') => (moments, .failed e m')
  | (moments, .unfinished) => (moments, .unfinished)

instance : Monad Traced where
  pure := Traced.pure
  bind := Traced.bind

def valueOf (scope : ScopeId) (name : String) : Traced Value :=
  noting (fun s => [⟨s, .find scope name⟩]) (.query (·.valueOf scope name))

def lookup (scope : ScopeId) (name : String) : Traced Value :=
  noting (fun s => [⟨s, .find scope name⟩]) (.query (·.lookup scope name))

def declare (scope : ScopeId) (name : String) (ty : Ty) : Traced Unit :=
  noting (fun s => [⟨s, .declare scope name⟩]) (.update (.declare scope name ty))

def assign (scope : ScopeId) (name : String) (value : Value) : Traced Unit :=
  noting (fun s => [⟨s, .assign scope name⟩]) (.update (.assign scope name value))

/-- A declaration and then, in the arena that it leaves, an assignment. -/
def declareAndAssign (scope : ScopeId) (name : String) (value : Value) : Traced Unit :=
  noting
    (fun s => ⟨s, .declare scope name⟩ ::
      match s.declare scope name value.ty with
      | .ok t => [⟨t, .assign scope name⟩]
      | .error _ => [])
    (.update (.declareAndAssign scope name value))

/-- The release of a scope at the end, unless the end is not reached. -/
def released (scope : ScopeId) : Outcome Machine α → List Moment
  | .done _ m | .failed _ m => [⟨m.scopes, .release scope⟩]
  | .unfinished => []

/-- Act in a new scope, and release it at the end, on an error too. -/
def inScope (parent : Option ScopeId) (body : ScopeId → Traced α) : Traced α := fun m =>
  let scope := m.scopes.next
  let inner := body scope { m with scopes := m.scopes.push parent }
  (⟨m.scopes, .enter parent⟩ :: inner.1 ++ released scope inner.2,
    inner.2.mapState fun m' => { m' with scopes := m'.scopes.release scope })

/-- Act inside a method, and leave it at the end, on an error too. -/
def inCall (name : String) (body : Traced α) : Traced α := fun m =>
  let inner := body { m with calls := m.calls.push name }
  (inner.1, inner.2.mapState fun m' => { m' with calls := m'.calls.pop })

/-! ### Lists inside statements and calls -/

/-- Run statements in order, up to the first that does not end normally. -/
def execAll (exec : Stmt → Traced Signal) : List Stmt → Traced Signal
  | [] => pure .normal
  | st :: rest => do
    match ← exec st with
    | .normal => execAll exec rest
    | signal => pure signal

/-- Run a statement if there is one. -/
def execOption (exec : Stmt → Traced Signal) : Option Stmt → Traced Signal
  | none => pure .normal
  | some st => exec st

/-- Evaluate arguments one by one and bind each to the next parameter. -/
def bindArgs (eval : Expr → Traced Value) (callee : ScopeId) (miscount : EvalError) :
    List String → List Expr → Traced Unit
  | [], [] => pure ()
  | _ :: _, [] => quiet (.fail miscount)
  | [], arg :: _ => do
    let _ ← eval arg
    quiet (.fail miscount)
  | param :: params, arg :: args => do
    let value ← eval arg
    declareAndAssign callee param value
    bindArgs eval callee miscount params args

/-- Write items, each followed by a blank. -/
def writeAll (eval : Expr → Traced Value) : List WriteItem → Traced Unit
  | [] => pure ()
  | .text content :: rest => do
    quiet (.onConsole (·.writeItem content))
    writeAll eval rest
  | .expr value :: rest => do
    match (← eval value).render? with
    | none => quiet (.fail (.typeMismatch .unprintable))
    | some content =>
      quiet (.onConsole (·.writeItem content))
      writeAll eval rest

/-- Read an integer into each variable in turn. -/
def readAll (scope : ScopeId) : List String → Traced Unit
  | [] => pure ()
  | target :: rest => do
    let n ← quiet (.onConsole Console.readInt)
    assign scope target (.int n)
    readAll scope rest

/-! ### Calls -/

/-- Make sure that the variable for the innermost method's result is visible. -/
def findResult (scope : ScopeId) : Traced Unit := do
  match ← quiet .innermost with
  | none => pure ()
  | some name =>
    let _ ← lookup scope name

/-- Run a method in a scope that holds its parameters. -/
def runMethod (exec : ScopeId → Stmt → Traced Signal) (scope : ScopeId) (m : Method) :
    Traced Value := do
  declare scope m.name .int
  let _ ← inCall m.name (execAll (exec scope) m.body)
  if m.returns = .undefined then pure .untyped
  else valueOf scope m.name

/-- Call a method. Its scope is open while the arguments are evaluated. -/
def callMethod (w : Setting) (eval : Expr → Traced Value) (exec : ScopeId → Stmt → Traced Signal)
    (parent : Option ScopeId) (name : String) (args : List Expr) : Traced Value :=
  match w.method? name with
  | none => quiet (.fail (.undeclaredMethod name))
  | some m => do
    if w.limit ≤ (← quiet .depth) then quiet (.fail (.callDepthExceeded w.limit))
    else inScope parent fun callee => do
      bindArgs eval callee (.argumentCount name m.params.length args.length) m.params args
      runMethod exec callee m

/-! ### Expressions and statements -/

mutual

/-- Evaluate an expression. -/
def evalExpr (w : Setting) : Nat → ScopeId → Expr → Traced Value
  | 0, _, _ => quiet .unfinished
  | _ + 1, _, .lit l => pure l.value
  | _ + 1, scope, .var name => valueOf scope name
  | n + 1, scope, .binary lhs op rhs => do
    let l ← evalExpr w n scope lhs
    let r ← evalExpr w n scope rhs
    quiet (.ofExcept (op.apply l r))
  | n + 1, scope, .call name args =>
    callMethod w (fun arg => evalExpr w n scope arg) (fun callee => execStmt w n callee) none name
      args

/-- Execute a statement. -/
def execStmt (w : Setting) : Nat → ScopeId → Stmt → Traced Signal
  | 0, _, _ => quiet .unfinished
  | _ + 1, scope, .declare name ty => do
    declare scope name (.ofName ty)
    pure .normal
  | n + 1, scope, .assign name value => do
    let v ← evalExpr w n scope value
    assign scope name v
    pure .normal
  | n + 1, scope, .block body =>
    inScope (some scope) fun inner => execAll (fun st => execStmt w n inner st) body
  | n + 1, scope, .seq body => execAll (fun st => execStmt w n scope st) body
  | n + 1, scope, .ite cond yes no => do
    let v ← evalExpr w n scope cond
    if ← quiet (.ofExcept (v.truth .ite)) then execStmt w n scope yes
    else execOption (fun st => execStmt w n scope st) no
  | n + 1, scope, .doWhile cond body => do
    match ← execStmt w n scope body with
    | .brk => pure .normal
    | .ret => pure .ret
    | .normal =>
      let v ← evalExpr w n scope cond
      if ← quiet (.ofExcept (v.truth .doWhile)) then execStmt w n scope (.doWhile cond body)
      else pure .normal
  | _ + 1, _, .brk => pure .brk
  | _ + 1, scope, .ret => do
    findResult scope
    pure .ret
  | _ + 1, scope, .read targets => do
    readAll scope targets
    pure .normal
  | n + 1, scope, .write items => do
    writeAll (fun e => evalExpr w n scope e) items
    quiet (.onConsole Console.endLine)
    pure .normal
  | n + 1, scope, .invoke value => do
    let _ ← evalExpr w n scope value
    pure .normal

end

/-- Call a method from a scope, with arguments to be evaluated there. -/
def invoke (w : Setting) (n : Nat) (scope : ScopeId) (name : String) (args : List Expr) :
    Traced Value :=
  callMethod w (evalExpr w n scope) (execStmt w n) none name args

/-- Call the entry method. -/
def invokeEntry (w : Setting) (n : Nat) (name : String) : Traced Value :=
  callMethod w (evalExpr w n Scopes.root) (execStmt w n) (some Scopes.root) name []

/-- The fields of a program and then its entry method. -/
def action (p : Program) (n : Nat) (entry : String) : Traced Value := do
  let _ ← execAll (execStmt p.setting n Scopes.root) p.fields
  invokeEntry p.setting n entry

/-! ### The record changes nothing -/

/-- But for the record, the traced action is the other one. -/
def Traces (x : Traced α) (y : Action Machine α) : Prop := ∀ m, (x m).2 = y m

namespace Traces

theorem noting (note : Scopes → List Moment) (x : Action Machine α) :
    (Traced.noting note x).Traces x := fun _ => rfl

theorem quiet (x : Action Machine α) : (Traced.quiet x).Traces x := fun _ => rfl

protected theorem pure (a : α) : (Pure.pure a : Traced α).Traces (Pure.pure a) := fun _ => rfl

protected theorem bind {x : Traced α} {y : Action Machine α} {f : α → Traced β}
    {g : α → Action Machine β} (h : x.Traces y) (hf : ∀ a, (f a).Traces (g a)) :
    (x >>= f).Traces (y >>= g) := by
  intro m
  have hx := h m
  simp only [Bind.bind, Traced.bind, Action.bind]
  rw [← hx]
  generalize x m = ends
  obtain ⟨moments, ends⟩ := ends
  cases ends with
  | done a m' => exact hf a m'
  | failed | unfinished => rfl

theorem inScope {parent : Option ScopeId} {f : ScopeId → Traced α}
    {g : ScopeId → Action Machine α} (h : ∀ scope, (f scope).Traces (g scope)) :
    (Traced.inScope parent f).Traces (Action.inScope parent g) := by
  intro m
  rw [Action.inScope_apply, ← h]
  rfl

theorem inCall {x : Traced α} {y : Action Machine α} (name : String) (h : x.Traces y) :
    (Traced.inCall name x).Traces (Action.inCall name y) := by
  intro m
  rw [Action.inCall_apply, ← h]
  rfl

variable {eval : Expr → Traced Value} {eval' : Expr → Action Machine Value}
  {exec : ScopeId → Stmt → Traced Signal} {exec' : ScopeId → Stmt → Action Machine Signal}

theorem execAll {f : Stmt → Traced Signal} {g : Stmt → Action Machine Signal}
    (h : ∀ st, (f st).Traces (g st)) (body : List Stmt) :
    (Traced.execAll f body).Traces (MethodLang.execAll g body) := by
  induction body with
  | nil => exact .pure _
  | cons st rest ih =>
    refine (h st).bind fun signal => ?_
    cases signal with
    | normal => exact ih
    | brk | ret => exact .pure _

theorem execOption {f : Stmt → Traced Signal} {g : Stmt → Action Machine Signal}
    (h : ∀ st, (f st).Traces (g st)) (no : Option Stmt) :
    (Traced.execOption f no).Traces (MethodLang.execOption g no) := by
  cases no with
  | none => exact .pure _
  | some st => exact h st

theorem bindArgs (h : ∀ e, (eval e).Traces (eval' e)) (callee : ScopeId) (miscount : EvalError)
    (params : List String) (args : List Expr) :
    (Traced.bindArgs eval callee miscount params args).Traces
      (MethodLang.bindArgs eval' callee miscount params args) := by
  induction args generalizing params with
  | nil => cases params <;> exact fun _ => rfl
  | cons arg args ih =>
    cases params with
    | nil => exact (h arg).bind fun _ => .quiet _
    | cons param params => exact (h arg).bind fun _ => (Traces.noting _ _).bind fun _ => ih params

theorem writeAll (h : ∀ e, (eval e).Traces (eval' e)) (items : List WriteItem) :
    (Traced.writeAll eval items).Traces (MethodLang.writeAll eval' items) := by
  induction items with
  | nil => exact .pure _
  | cons item rest ih =>
    cases item with
    | text content => exact (Traces.quiet _).bind fun _ => ih
    | expr value =>
      refine (h value).bind fun v => ?_
      cases v.render? with
      | none => exact .quiet _
      | some content => exact (Traces.quiet _).bind fun _ => ih

theorem readAll (scope : ScopeId) (targets : List String) :
    (Traced.readAll scope targets).Traces (MethodLang.readAll scope targets) := by
  induction targets with
  | nil => exact .pure _
  | cons target rest ih => exact (Traces.quiet _).bind fun n => (Traces.noting _ _).bind fun _ => ih

theorem findResult (scope : ScopeId) :
    (Traced.findResult scope).Traces (MethodLang.findResult scope) := by
  refine (Traces.quiet _).bind fun name => ?_
  cases name with
  | none => exact .pure _
  | some name => exact (Traces.noting _ _).bind fun _ => .pure _

theorem runMethod (h : ∀ scope st, (exec scope st).Traces (exec' scope st)) (scope : ScopeId)
    (m : Method) :
    (Traced.runMethod exec scope m).Traces (MethodLang.runMethod exec' scope m) := by
  refine (Traces.noting _ _).bind fun _ => (Traces.inCall _ (.execAll (h scope) _)).bind fun _ => ?_
  split
  · exact .pure _
  · exact .noting _ _

theorem callMethod (w : Setting) (heval : ∀ e, (eval e).Traces (eval' e))
    (hexec : ∀ scope st, (exec scope st).Traces (exec' scope st)) (parent : Option ScopeId)
    (name : String) (args : List Expr) :
    (Traced.callMethod w eval exec parent name args).Traces
      (MethodLang.callMethod w eval' exec' parent name args) := by
  rw [Traced.callMethod, MethodLang.callMethod]
  cases w.method? name with
  | none => exact .quiet _
  | some m =>
    refine (Traces.quiet _).bind fun depth => ?_
    split
    · exact .quiet _
    · refine .inScope fun callee => ?_
      exact (Traces.bindArgs heval _ _ _ _).bind fun _ => .runMethod hexec callee m

end Traces

variable (w : Setting) (n : Nat)

theorem traces_evalExpr_execStmt :
    (∀ scope e, (evalExpr w n scope e).Traces (MethodLang.evalExpr w n scope e)) ∧
      ∀ scope st, (execStmt w n scope st).Traces (MethodLang.execStmt w n scope st) := by
  induction n with
  | zero => exact ⟨fun _ _ => .quiet _, fun _ _ => .quiet _⟩
  | succ n ih =>
    obtain ⟨heval, hexec⟩ := ih
    constructor
    · intro scope e
      cases e with
      | lit l => exact .pure _
      | var name => exact .noting _ _
      | binary lhs op rhs =>
        rw [evalExpr, MethodLang.evalExpr]
        exact (heval scope lhs).bind fun l => (heval scope rhs).bind fun r => .quiet _
      | call name args =>
        rw [evalExpr, MethodLang.evalExpr]
        exact .callMethod w (heval scope) hexec none name args
    · intro scope st
      cases st with
      | declare name ty =>
        rw [execStmt, MethodLang.execStmt]
        exact (Traces.noting _ _).bind fun _ => .pure _
      | assign name value =>
        rw [execStmt, MethodLang.execStmt]
        exact (heval scope value).bind fun v => (Traces.noting _ _).bind fun _ => .pure _
      | block body =>
        rw [execStmt, MethodLang.execStmt]
        exact .inScope fun inner => .execAll (hexec inner) body
      | seq body =>
        rw [execStmt, MethodLang.execStmt]
        exact .execAll (hexec scope) body
      | ite cond yes no =>
        rw [execStmt, MethodLang.execStmt]
        refine (heval scope cond).bind fun v => (Traces.quiet _).bind fun truth => ?_
        cases truth with
        | true => exact hexec scope yes
        | false => exact .execOption (hexec scope) no
      | doWhile cond body =>
        rw [execStmt, MethodLang.execStmt]
        refine (hexec scope body).bind fun signal => ?_
        cases signal with
        | brk | ret => exact .pure _
        | normal =>
          refine (heval scope cond).bind fun v => (Traces.quiet _).bind fun truth => ?_
          cases truth with
          | true => exact hexec scope (.doWhile cond body)
          | false => exact .pure _
      | brk => exact .pure _
      | ret =>
        rw [execStmt, MethodLang.execStmt]
        exact (Traces.findResult scope).bind fun _ => .pure _
      | read targets =>
        rw [execStmt, MethodLang.execStmt]
        exact (Traces.readAll scope targets).bind fun _ => .pure _
      | write items =>
        rw [execStmt, MethodLang.execStmt]
        exact (Traces.writeAll (heval scope) items).bind fun _ =>
          (Traces.quiet _).bind fun _ => .pure _
      | invoke value =>
        rw [execStmt, MethodLang.execStmt]
        exact (heval scope value).bind fun _ => .pure _

theorem traces_evalExpr (scope : ScopeId) (e : Expr) :
    (evalExpr w n scope e).Traces (MethodLang.evalExpr w n scope e) :=
  (traces_evalExpr_execStmt w n).1 scope e

theorem traces_execStmt (scope : ScopeId) (st : Stmt) :
    (execStmt w n scope st).Traces (MethodLang.execStmt w n scope st) :=
  (traces_evalExpr_execStmt w n).2 scope st

theorem traces_invoke (scope : ScopeId) (name : String) (args : List Expr) :
    (invoke w n scope name args).Traces (MethodLang.invoke w n scope name args) :=
  .callMethod w (traces_evalExpr w n scope) (traces_execStmt w n) none name args

theorem traces_invokeEntry (name : String) :
    (invokeEntry w n name).Traces (MethodLang.invokeEntry w n name) :=
  .callMethod w (traces_evalExpr w n Scopes.root) (traces_execStmt w n) (some Scopes.root) name []

theorem traces_action (p : Program) (entry : String) :
    (action p n entry).Traces (p.action n entry) :=
  (Traces.execAll (traces_execStmt p.setting n Scopes.root) p.fields).bind fun _ =>
    traces_invokeEntry p.setting n entry

end Traced

/-! ### Programs -/

namespace Program

/-- The moments at which a run uses the arena. -/
def runMoments (p : Program) (n : Nat) (console : Console) : List Moment :=
  match p.entry with
  | none => []
  | some entry => (Traced.action p n entry ⟨.initial, #[], console⟩).1

end Program

end MethodLang
