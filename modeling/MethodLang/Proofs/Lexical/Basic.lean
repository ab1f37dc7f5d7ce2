import MethodLang.Program
import MethodLang.Proofs.Lexical.Environment

/-!
# Lexical semantics

What a program means, said without an arena. An expression is evaluated in an environment, which
it cannot change. A statement acts on an environment: a block puts empty bindings in front and
drops them at the end. The body of a method starts from bindings of its own, with nothing behind
them; only the entry method has the bindings of the program behind its own. How many calls are
active, and which is the innermost, is known where evaluation stands; nothing is entered or left.

As in `MethodLang.Eval.Basic`, evaluation takes a number of steps that it may nest or repeat.
-/

namespace MethodLang.Lexical

/-- Where a statement stands: how many calls are active, and the name of the innermost method. -/
structure Activation where
  depth : Nat
  method : Option String

/-- No call is active. -/
def Activation.idle : Activation := ⟨0, none⟩

/-- What statements change. -/
structure State where
  env : Env
  console : Console

variable {α : Type}

/-- Evaluate in the environment as it is. -/
def evaluating (eval : Env → Action Console α) : Action State α := fun s =>
  (eval s.env s.console).mapState fun console => { s with console }

/-- Update the environment. -/
def update (f : Env → Except EvalError Env) : Action State Unit := fun s =>
  match f s.env with
  | .ok env => .done () { s with env }
  | .error e => .failed e s

/-- Ask the environment. -/
def query (f : Env → Except EvalError α) : Action State α := fun s =>
  match f s.env with
  | .ok a => .done a s
  | .error e => .failed e s

/-- Use the console. -/
def onConsole (f : Console → Except ConsoleError α × Console) : Action State α := fun s =>
  match f s.console with
  | (.ok a, console) => .done a { s with console }
  | (.error e, console) => .failed (.console e) { s with console }

/-- Act with empty bindings put in front of the environment, and drop them at the end. -/
def inFront (body : Action State α) : Action State α := fun s =>
  (body { s with env := .empty :: s.env }).mapState fun s => { s with env := s.env.tail }

/-! ### Lists inside statements and calls -/

/-- Evaluate arguments one by one and bind each to the next parameter. -/
def bindArgs (eval : Expr → Action Console Value) (miscount : EvalError) :
    List String → List Expr → Action State Unit
  | [], [] => pure ()
  | _ :: _, [] => .fail miscount
  | [], arg :: _ => do
    let _ ← evaluating fun _ => eval arg
    .fail miscount
  | param :: params, arg :: args => do
    let value ← evaluating fun _ => eval arg
    update (·.declareAndAssign param value)
    bindArgs eval miscount params args

/-- Write items, each followed by a blank. -/
def writeAll (eval : Env → Expr → Action Console Value) : List WriteItem → Action State Unit
  | [] => pure ()
  | .text content :: rest => do
    onConsole (·.writeItem content)
    writeAll eval rest
  | .expr value :: rest => do
    match (← evaluating (eval · value)).render? with
    | none => .fail (.typeMismatch .unprintable)
    | some content =>
      onConsole (·.writeItem content)
      writeAll eval rest

/-- Read an integer into each variable in turn. -/
def readAll : List String → Action State Unit
  | [] => pure ()
  | target :: rest => do
    let n ← onConsole Console.readInt
    update (·.assign target (.int n))
    readAll rest

/-! ### Calls -/

/-- Make sure that the variable for the innermost method's result is visible. -/
def findResult (act : Activation) : Action State Unit :=
  match act.method with
  | none => pure ()
  | some name => do
    let _ ← query (·.lookup name)

/-- Run a method whose parameters are bound in front. -/
def runMethod (exec : Stmt → Action State Signal) (m : Method) : Action State Value := do
  update (·.declare m.name .int)
  let _ ← execAll exec m.body
  if m.returns = .undefined then pure .untyped
  else query (·.valueOf m.name)

/-- Call a method where `depth` calls are active. Its own bindings come in front of the
environment. -/
def callMethod (w : Setting) (eval : Expr → Action Console Value)
    (exec : Activation → Stmt → Action State Signal) (depth : Nat) (name : String)
    (args : List Expr) : Action State Value :=
  match w.method? name with
  | none => .fail (.undeclaredMethod name)
  | some m =>
    if w.limit ≤ depth then .fail (.callDepthExceeded w.limit)
    else inFront do
      bindArgs eval (.argumentCount name m.params.length args.length) m.params args
      runMethod (exec ⟨depth + 1, some m.name⟩) m

/-! ### Expressions and statements -/

mutual

/-- Evaluate an expression in an environment, where so many calls are active. A method called has
nothing behind its own bindings. -/
def evalExpr (w : Setting) : Nat → Nat → Env → Expr → Action Console Value
  | 0, _, _, _ => .unfinished
  | _ + 1, _, _, .lit l => pure l.value
  | _ + 1, _, env, .var name => .ofExcept (env.valueOf name)
  | n + 1, depth, env, .binary lhs op rhs => do
    let l ← evalExpr w n depth env lhs
    let r ← evalExpr w n depth env rhs
    .ofExcept (op.apply l r)
  | n + 1, depth, env, .call name args => fun console =>
    (callMethod w (fun arg => evalExpr w n depth env arg) (fun act => execStmt w n act) depth name
      args ⟨[], console⟩).mapState State.console

/-- Execute a statement. -/
def execStmt (w : Setting) : Nat → Activation → Stmt → Action State Signal
  | 0, _, _ => .unfinished
  | _ + 1, _, .declare name ty => do
    update (·.declare name (.ofName ty))
    pure .normal
  | n + 1, act, .assign name value => do
    let v ← evaluating fun env => evalExpr w n act.depth env value
    update (·.assign name v)
    pure .normal
  | n + 1, act, .block body => inFront (execAll (fun st => execStmt w n act st) body)
  | n + 1, act, .seq body => execAll (fun st => execStmt w n act st) body
  | n + 1, act, .ite cond yes no => do
    let v ← evaluating fun env => evalExpr w n act.depth env cond
    if ← .ofExcept (v.truth .ite) then execStmt w n act yes
    else execOption (fun st => execStmt w n act st) no
  | n + 1, act, .doWhile cond body => do
    match ← execStmt w n act body with
    | .brk => pure .normal
    | .ret => pure .ret
    | .normal =>
      let v ← evaluating fun env => evalExpr w n act.depth env cond
      if ← .ofExcept (v.truth .doWhile) then execStmt w n act (.doWhile cond body)
      else pure .normal
  | _ + 1, _, .brk => pure .brk
  | _ + 1, act, .ret => do
    findResult act
    pure .ret
  | _ + 1, _, .read targets => do
    readAll targets
    pure .normal
  | n + 1, act, .write items => do
    writeAll (fun env e => evalExpr w n act.depth env e) items
    onConsole Console.endLine
    pure .normal
  | n + 1, act, .invoke value => do
    let _ ← evaluating fun env => evalExpr w n act.depth env value
    pure .normal

end

/-! ### Programs -/

/-- The fields and then the entry method. -/
def action (p : Program) (n : Nat) (entry : String) : Action State Value := do
  let _ ← execAll (execStmt p.setting n .idle) p.fields
  callMethod p.setting (evalExpr p.setting n 0 []) (execStmt p.setting n) 0 entry []

/-- Run a program: the result, the bindings of the program and the console after it. Without an
entry method nothing happens, and the bindings `before` are left as they are. -/
def run (p : Program) (n : Nat) (before : Env) (console : Console) :
    Option (Except EvalError Unit × Env × Console) :=
  match p.entry with
  | none => some (.error .missingEntryPoint, before, console)
  | some entry =>
    match action p n entry ⟨[.empty], console⟩ with
    | .done _ s => some (s.console.flush.mapError EvalError.console, s.env, s.console)
    | .failed e s => some (.error e, s.env, s.console)
    | .unfinished => none

end MethodLang.Lexical
