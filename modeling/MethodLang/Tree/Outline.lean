import MethodLang.Text.Outline
import MethodLang.Text.Quoted
import MethodLang.Tree.Encode

/-!
# Trees as outlines

The form in which trees are shown to readers: every node by its name, with its parts below it.
-/

namespace MethodLang

open Text (Outline)

namespace Text.Outline

/-- A text in quotes. -/
def quoted (s : String) : Outline := .leaf (quote s)

/-- A name that stands alone. -/
def plain (s : String) : Outline := .leaf s.toList

/-- What may be missing. -/
def option : Option Outline → Outline
  | none => plain "None"
  | some item => tuple "Some" [item]

end Text.Outline

open Text.Outline (tuple record list quoted plain option)

def TyName.outline (ty : TyName) : Outline := tuple "TypeName" [quoted ty.text]

def Literal.outline : Literal → Outline
  | .int n => tuple "Int" [plain (toString n.toInt)]
  | .bool true => tuple "Bool" [plain "true"]
  | .bool false => tuple "Bool" [plain "false"]

/-! ### Expressions -/

mutual

def Expr.outline : Expr → Outline
  | .lit l => tuple "Lit" [l.outline]
  | .var x => tuple "Var" [quoted x]
  | .binary lhs op rhs =>
    record "Binary" [("lhs", lhs.outline), ("op", plain op.variant), ("rhs", rhs.outline)]
  | .call method args =>
    record "Call" [("method", quoted method), ("args", list (Expr.outlines args))]

def Expr.outlines : List Expr → List Outline
  | [] => []
  | e :: es => e.outline :: Expr.outlines es

end

def WriteItem.outline : WriteItem → Outline
  | .expr value => tuple "Expr" [value.outline]
  | .text content => tuple "Text" [quoted content]

/-! ### Statements -/

mutual

def Stmt.outline : Stmt → Outline
  | .declare x ty => record "Declare" [("name", quoted x), ("ty", ty.outline)]
  | .assign x value => record "Assign" [("name", quoted x), ("value", value.outline)]
  | .block body => tuple "Block" [list (Stmt.outlines body)]
  | .seq body => tuple "Seq" [list (Stmt.outlines body)]
  | .ite cond yes no =>
    record "If"
      [("cond", cond.outline), ("then_", yes.outline), ("else_", option (Stmt.outline? no))]
  | .doWhile cond body => record "While" [("cond", cond.outline), ("body", body.outline)]
  | .brk => plain "Break"
  | .ret => plain "Return"
  | .read targets => tuple "Read" [list (targets.map quoted)]
  | .write items => tuple "Write" [list (items.map WriteItem.outline)]
  | .invoke value => tuple "Invoke" [value.outline]

def Stmt.outline? : Option Stmt → Option Outline
  | none => none
  | some st => some st.outline

def Stmt.outlines : List Stmt → List Outline
  | [] => []
  | st :: rest => st.outline :: Stmt.outlines rest

end

/-! ### Programs -/

def MethodDecl.outline (decl : MethodDecl) : Outline :=
  record "MethodDecl" [
    ("name", quoted decl.name),
    ("ret_ty", option (decl.returns.map TyName.outline)),
    ("params", list (decl.params.map quoted)),
    ("body", list (Stmt.outlines decl.body))]

def Tree.outline (tree : Tree) : Outline :=
  record "Program" [
    ("name", quoted tree.name),
    ("fields", list (Stmt.outlines tree.fields)),
    ("methods", list (tree.methods.map MethodDecl.outline)),
    ("entry", option (tree.entry.map quoted))]

end MethodLang
