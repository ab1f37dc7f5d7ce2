/-!
# Syntax trees

Programs arrive as trees: fields, methods and the name of the method to start with. Statements
and expressions refer to variables, methods and types by the names written in the program;
nothing in a tree is resolved.
-/

namespace MethodLang

/-- A type as the program writes it. Any text may stand here, known or not. -/
structure TyName where
  text : String
  deriving DecidableEq

/-- Binary operators. -/
inductive BinOp
  | add | sub | mul | div | mod
  | and | or
  | eq | ne
  | lt | gt | le | ge
  deriving DecidableEq

/-- The sign by which messages show an operator. -/
def BinOp.symbol : BinOp → String
  | .add => "+"
  | .sub => "-"
  | .mul => "*"
  | .div => "/"
  | .mod => "%"
  | .and => "and"
  | .or => "or"
  | .eq => "=="
  | .ne => "!="
  | .lt => "<"
  | .gt => ">"
  | .le => "<="
  | .ge => ">="

/-- Constants: integers of 64 bits, and truth values. -/
inductive Literal
  | int (value : Int64)
  | bool (value : Bool)
  deriving DecidableEq

inductive Expr
  | lit (value : Literal)
  | var (name : String)
  | binary (lhs : Expr) (op : BinOp) (rhs : Expr)
  | call (method : String) (args : List Expr)

/-- One item of a write statement: a value to compute, or fixed text. -/
inductive WriteItem
  | expr (value : Expr)
  | text (content : String)

inductive Stmt
  /-- Introduce a variable without a value. -/
  | declare (name : String) (ty : TyName)
  | assign (name : String) (value : Expr)
  /-- Statements in a scope of their own. -/
  | block (body : List Stmt)
  /-- Statements in the surrounding scope. -/
  | seq (body : List Stmt)
  | ite (cond : Expr) (yes : Stmt) (no : Option Stmt)
  /-- Repeat: the body comes first, the condition is tested after it. -/
  | doWhile (cond : Expr) (body : Stmt)
  /-- Leave the innermost loop. -/
  | brk
  /-- Leave the method. -/
  | ret
  | read (targets : List String)
  | write (items : List WriteItem)
  /-- Evaluate for the effects alone. -/
  | invoke (value : Expr)

/-- A method as declared; without a return type it has no result. -/
structure MethodDecl where
  name : String
  returns : Option TyName
  params : List String
  body : List Stmt

/-- A whole program as declared. Fields are statements run before the entry method. -/
structure Tree where
  name : String
  fields : List Stmt
  methods : List MethodDecl
  entry : Option String

namespace Expr

def int (n : Int64) : Expr := .lit (.int n)

def bool (b : Bool) : Expr := .lit (.bool b)

end Expr

end MethodLang
