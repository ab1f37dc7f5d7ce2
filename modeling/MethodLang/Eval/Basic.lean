import MethodLang.Machine
import MethodLang.Method
import MethodLang.Operator

/-!
# Evaluation

Expressions give values; statements give a signal that says whether the next statement runs.
Both act on the machine.

Evaluation takes a number of steps that it may nest or repeat, so that it is defined for every
program; `Outcome.unfinished` is its answer when they do not suffice. The lists inside a
statement or a call are walked by functions of their own, which know evaluation only as an
argument.
-/

namespace MethodLang

/-- How a statement ends. -/
inductive Signal
  | normal
  | brk
  | ret
  deriving DecidableEq

/-- What stays fixed while a program runs: its methods, and how many calls may be active. -/
structure Setting where
  methods : List Method
  limit : Nat

/-- The method of a name. -/
def Setting.method? (w : Setting) (name : String) : Option Method :=
  w.methods.find? (·.name = name)

/-! ### Lists inside statements and calls -/

/-- Run statements in order, up to the first that does not end normally. -/
@[specialize] def execAll {σ : Type} (exec : Stmt → Action σ Signal) :
    List Stmt → Action σ Signal
  | [] => pure .normal
  | st :: rest => do
    match ← exec st with
    | .normal => execAll exec rest
    | signal => pure signal

/-- Run a statement if there is one. -/
@[inline] def execOption {σ : Type} (exec : Stmt → Action σ Signal) :
    Option Stmt → Action σ Signal
  | none => pure .normal
  | some st => exec st

/-- Evaluate arguments one by one in the caller's scope and bind each to the next parameter. An
argument too many is noticed once it is evaluated, arguments too few at the end. -/
@[specialize] def bindArgs (eval : Expr → Action Machine Value) (callee : ScopeId)
    (miscount : EvalError) : List String → List Expr → Action Machine Unit
  | [], [] => pure ()
  | _ :: _, [] => .fail miscount
  | [], arg :: _ => do
    let _ ← eval arg
    .fail miscount
  | param :: params, arg :: args => do
    let value ← eval arg
    .update (.declareAndAssign callee param value)
    bindArgs eval callee miscount params args

/-- Write items, each followed by a blank. -/
@[specialize] def writeAll (eval : Expr → Action Machine Value) :
    List WriteItem → Action Machine Unit
  | [] => pure ()
  | .text content :: rest => do
    .onConsole (·.writeItem content)
    writeAll eval rest
  | .expr value :: rest => do
    match (← eval value).render? with
    | none => .fail (.typeMismatch .unprintable)
    | some content =>
      .onConsole (·.writeItem content)
      writeAll eval rest

/-- Read an integer into each variable in turn. -/
def readAll (scope : ScopeId) : List String → Action Machine Unit
  | [] => pure ()
  | target :: rest => do
    let n ← .onConsole Console.readInt
    .update (.assign scope target (.int n))
    readAll scope rest

/-! ### Calls -/

/-- A condition's value as a truth value. -/
def Value.truth (construct : Conditional) : Value → Except EvalError Bool
  | .bool b => .ok b
  | v => .error (.typeMismatch (.condition construct v.ty))

/-- Make sure that the variable for the innermost method's result is visible. -/
def findResult (scope : ScopeId) : Action Machine Unit := do
  match ← .innermost with
  | none => pure ()
  | some name =>
    let _ ← .query (·.lookup scope name)

/-- Run a method in a scope that holds its parameters. The result is what the body leaves in a
variable of the method's own name, which is an integer whatever the declared return type; a
method without a return type has no result. -/
@[inline] def runMethod (exec : ScopeId → Stmt → Action Machine Signal) (scope : ScopeId)
    (m : Method) : Action Machine Value := do
  .update (.declare scope m.name .int)
  let _ ← .inCall m.name (execAll (exec scope) m.body)
  if m.returns = .undefined then pure .untyped
  else .query (·.valueOf scope m.name)

/-- Call a method. `eval` evaluates arguments where the call stands and `exec` runs statements.
The method's scope hangs under `parent`; it is open while the arguments are evaluated. -/
@[inline] def callMethod (w : Setting) (eval : Expr → Action Machine Value)
    (exec : ScopeId → Stmt → Action Machine Signal) (parent : Option ScopeId) (name : String)
    (args : List Expr) : Action Machine Value :=
  match w.method? name with
  | none => .fail (.undeclaredMethod name)
  | some m => do
    if w.limit ≤ (← .depth) then .fail (.callDepthExceeded w.limit)
    else .inScope parent fun callee => do
      bindArgs eval callee (.argumentCount name m.params.length args.length) m.params args
      runMethod exec callee m

/-! ### Expressions and statements -/

mutual

/-- Evaluate an expression. Operands are evaluated left first, both always; a method called
sees neither the caller's variables nor the fields. -/
def evalExpr (w : Setting) : Nat → ScopeId → Expr → Action Machine Value
  | 0, _, _ => .unfinished
  | _ + 1, _, .lit l => pure l.value
  | _ + 1, scope, .var name => .query (·.valueOf scope name)
  | n + 1, scope, .binary lhs op rhs => do
    let l ← evalExpr w n scope lhs
    let r ← evalExpr w n scope rhs
    .ofExcept (op.apply l r)
  | n + 1, scope, .call name args =>
    callMethod w (fun arg => evalExpr w n scope arg) (fun callee => execStmt w n callee) none name
      args

/-- Execute a statement. -/
def execStmt (w : Setting) : Nat → ScopeId → Stmt → Action Machine Signal
  | 0, _, _ => .unfinished
  | _ + 1, scope, .declare name ty => do
    .update (.declare scope name (.ofName ty))
    pure .normal
  | n + 1, scope, .assign name value => do
    let v ← evalExpr w n scope value
    .update (.assign scope name v)
    pure .normal
  | n + 1, scope, .block body =>
    .inScope (some scope) fun inner => execAll (fun st => execStmt w n inner st) body
  | n + 1, scope, .seq body => execAll (fun st => execStmt w n scope st) body
  | n + 1, scope, .ite cond yes no => do
    let v ← evalExpr w n scope cond
    if ← .ofExcept (v.truth .ite) then execStmt w n scope yes
    else execOption (fun st => execStmt w n scope st) no
  | n + 1, scope, .doWhile cond body => do
    match ← execStmt w n scope body with
    | .brk => pure .normal
    | .ret => pure .ret
    | .normal =>
      let v ← evalExpr w n scope cond
      if ← .ofExcept (v.truth .doWhile) then execStmt w n scope (.doWhile cond body)
      else pure .normal
  | _ + 1, _, .brk => pure .brk
  | _ + 1, scope, .ret => do
    findResult scope
    pure .ret
  | _ + 1, scope, .read targets => do
    readAll scope targets
    pure .normal
  | n + 1, scope, .write items => do
    writeAll (fun e => evalExpr w n scope e) items
    .onConsole Console.endLine
    pure .normal
  | n + 1, scope, .invoke value => do
    let _ ← evalExpr w n scope value
    pure .normal

end

/-- Call a method from a scope, with arguments to be evaluated there. -/
def invoke (w : Setting) (n : Nat) (scope : ScopeId) (name : String) (args : List Expr) :
    Action Machine Value :=
  callMethod w (evalExpr w n scope) (execStmt w n) none name args

/-- Call the entry method. Unlike other calls it takes no arguments, and its scope hangs under
the root, so that it sees the fields. -/
def invokeEntry (w : Setting) (n : Nat) (name : String) : Action Machine Value :=
  callMethod w (evalExpr w n Scopes.root) (execStmt w n) (some Scopes.root) name []

end MethodLang
