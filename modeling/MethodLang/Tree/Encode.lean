import MethodLang.Json.Printer
import MethodLang.Tree.Basic

/-!
# Trees as JSON

The JSON form in which trees are shown: every field is written, in the order of declaration, and
a variant is an object whose one key is its name, or the bare name if it carries nothing.
-/

namespace MethodLang

def BinOp.variant : BinOp → String
  | .add => "Add"
  | .sub => "Sub"
  | .mul => "Mul"
  | .div => "Div"
  | .mod => "Mod"
  | .and => "And"
  | .or => "Or"
  | .eq => "Eq"
  | .ne => "Ne"
  | .lt => "Lt"
  | .gt => "Gt"
  | .le => "Le"
  | .ge => "Ge"

def Literal.toJson : Literal → Json
  | .int n => .single "Int" (.int n.toInt)
  | .bool b => .single "Bool" (.bool b)

/-! ### Expressions -/

mutual

def Expr.toJson : Expr → Json
  | .lit l => .single "Lit" l.toJson
  | .var name => .single "Var" (.text name)
  | .binary lhs op rhs =>
    .single "Binary"
      (.record [("lhs", lhs.toJson), ("op", .text op.variant), ("rhs", rhs.toJson)])
  | .call method args =>
    .single "Call" (.record [("method", .text method), ("args", .arr (Expr.allToJson args))])

def Expr.allToJson : List Expr → List Json
  | [] => []
  | e :: es => e.toJson :: Expr.allToJson es

end

def WriteItem.toJson : WriteItem → Json
  | .expr value => .single "Expr" value.toJson
  | .text content => .single "Text" (.text content)

/-! ### Statements -/

mutual

def Stmt.toJson : Stmt → Json
  | .declare name ty => .single "Declare" (.record [("name", .text name), ("ty", .text ty.text)])
  | .assign name value =>
    .single "Assign" (.record [("name", .text name), ("value", value.toJson)])
  | .block body => .single "Block" (.arr (Stmt.allToJson body))
  | .seq body => .single "Seq" (.arr (Stmt.allToJson body))
  | .ite cond yes no =>
    .single "If"
      (.record [("cond", cond.toJson), ("then_", yes.toJson), ("else_", Stmt.optionToJson no)])
  | .doWhile cond body =>
    .single "While" (.record [("cond", cond.toJson), ("body", body.toJson)])
  | .brk => .text "Break"
  | .ret => .text "Return"
  | .read targets => .single "Read" (.arr (targets.map .text))
  | .write items => .single "Write" (.arr (items.map WriteItem.toJson))
  | .invoke value => .single "Invoke" value.toJson

def Stmt.optionToJson : Option Stmt → Json
  | none => .null
  | some st => st.toJson

def Stmt.allToJson : List Stmt → List Json
  | [] => []
  | st :: rest => st.toJson :: Stmt.allToJson rest

end

/-! ### Programs -/

def MethodDecl.toJson (decl : MethodDecl) : Json :=
  .record [
    ("name", .text decl.name),
    ("ret_ty", decl.returns.elim .null fun ty => .text ty.text),
    ("params", .arr (decl.params.map .text)),
    ("body", .arr (Stmt.allToJson decl.body))]

def Tree.toJson (tree : Tree) : Json :=
  .record [
    ("name", .text tree.name),
    ("fields", .arr (Stmt.allToJson tree.fields)),
    ("methods", .arr (tree.methods.map MethodDecl.toJson)),
    ("entry", tree.entry.elim .null .text)]

end MethodLang
