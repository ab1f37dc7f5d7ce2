import MethodLang.Eval.Basic

/-!
# Programs

A program is run by executing its fields in a fresh root scope and then calling its entry
method. It may be run again, and an expression may be evaluated in the root scope that the last
run left.
-/

namespace MethodLang

/-- How many calls may be active where nothing else is asked for. -/
def defaultLimit : Nat := 1000

structure Program where
  name : String
  fields : List Stmt
  /-- Newest first; names are unique. -/
  methods : List Method
  entry : Option String
  limit : Nat
  /-- What the last run left: the root scope with the fields. -/
  scopes : Scopes

namespace Program

/-- The program without anything. -/
def empty (limit : Nat) : Program := ⟨"", [], [], none, limit, .initial⟩

def setName (p : Program) (name : String) : Program := { p with name }

def addField (p : Program) (field : Stmt) : Program := { p with fields := p.fields ++ [field] }

/-- Choose the method to start with. Whether there is such a method shows when it is called. -/
def setEntry (p : Program) (name : String) : Program := { p with entry := some name }

/-- The method of a name. -/
def method? (p : Program) (name : String) : Option Method := p.methods.find? (·.name = name)

/-- Add a method in place, unless its name is taken. -/
def register (p : Program) (m : Method) : Except EvalError Unit × Program :=
  match p.method? m.name with
  | some _ => (.error (.redeclaration m.name), p)
  | none => (.ok (), { p with methods := m :: p.methods })

/-- The program after a method has been added, if that succeeds. -/
def addMethod (p : Program) (m : Method) : Except EvalError Program :=
  match p.register m with
  | (.ok (), q) => .ok q
  | (.error e, _) => .error e

/-- The program that a tree declares. -/
def ofTree (tree : Tree) (limit : Nat) : Except EvalError Program :=
  tree.methods.foldlM (fun p decl => p.addMethod (.ofDecl decl))
    { empty limit with name := tree.name, fields := tree.fields, entry := tree.entry }

/-- What stays fixed while the program runs. -/
def setting (p : Program) : Setting := ⟨p.methods, p.limit⟩

/-- The fields and then the entry method, on scopes that hold nothing yet. -/
def action (p : Program) (n : Nat) (entry : String) : Action Machine Value := do
  let _ ← execAll (execStmt p.setting n Scopes.root) p.fields
  invokeEntry p.setting n entry

/-- The result of an action together with the program and the console after it; `none` if it
ran out of steps. -/
def after {α : Type} (p : Program) :
    Outcome Machine α → Option (Except EvalError α × Program × Console)
  | .done a m => some (.ok a, { p with scopes := m.scopes }, m.console)
  | .failed e m => some (.error e, { p with scopes := m.scopes }, m.console)
  | .unfinished => none

/-- Run a program. The output is flushed at the end in any case; that the flush fails counts
only if nothing failed before. Without an entry method nothing happens. -/
def run (p : Program) (n : Nat) (console : Console) :
    Option (Except EvalError Unit × Program × Console) :=
  match p.entry with
  | none => some (.error .missingEntryPoint, p, console)
  | some entry =>
    (p.after (p.action n entry ⟨.initial, #[], console⟩)).map fun (result, p, console) =>
      match result with
      | .ok _ => (console.flush.mapError EvalError.console, p, console)
      | .error e => (.error e, p, console)

/-- Evaluate an expression in the root scope. -/
def evaluate (p : Program) (n : Nat) (e : Expr) (console : Console) :
    Option (Except EvalError Value × Program × Console) :=
  p.after (evalExpr p.setting n Scopes.root e ⟨p.scopes, #[], console⟩)

end Program

end MethodLang
