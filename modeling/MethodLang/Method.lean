import MethodLang.Ty

/-!
# Methods

A method that can be called: its declaration with the return type resolved and a return after
its last statement.
-/

namespace MethodLang

structure Method where
  name : String
  returns : Ty
  params : List String
  body : List Stmt

/-- The method that a declaration declares. -/
def Method.ofDecl (decl : MethodDecl) : Method where
  name := decl.name
  returns := .ofName? decl.returns
  params := decl.params
  body := decl.body ++ [.ret]

end MethodLang
