import MethodLang.Program
import MethodLang.Proofs.Parts

/-!
# The methods that a tree calls

The names that stand as methods of calls, wherever in an expression, in a statement or in a
program. What a part of a tree calls, the tree calls.
-/

namespace MethodLang

/-! ### Expressions -/

mutual

/-- The methods that an expression calls, in arguments of calls too. -/
def Expr.callees : Expr → List String
  | .lit _ | .var _ => []
  | .binary lhs _ rhs => lhs.callees ++ rhs.callees
  | .call method args => method :: Expr.allCallees args

def Expr.allCallees : List Expr → List String
  | [] => []
  | e :: es => e.callees ++ Expr.allCallees es

end

namespace Expr

variable {e part : Expr} {name : String}

theorem mem_allCallees {es : List Expr} : name ∈ allCallees es ↔ ∃ e ∈ es, name ∈ e.callees := by
  induction es with
  | nil => simp [allCallees]
  | cons e es ih => simp [allCallees, ih]

theorem mem_callees_of_mem_parts (h : part ∈ e.parts) (hname : name ∈ part.callees) :
    name ∈ e.callees := by
  cases e with
  | lit | var => simp [parts] at h
  | binary lhs op rhs =>
    simp only [parts, List.mem_cons, List.not_mem_nil, or_false] at h
    rw [callees, List.mem_append]
    rcases h with rfl | rfl
    · exact .inl hname
    · exact .inr hname
  | call method args =>
    rw [callees, List.mem_cons]
    exact .inr (mem_allCallees.2 ⟨part, h, hname⟩)

end Expr

/-! ### Statements -/

mutual

/-- The methods that a statement calls. -/
def Stmt.callees : Stmt → List String
  | .assign _ value | .invoke value => value.callees
  | .block body | .seq body => Stmt.allCallees body
  | .ite cond yes no => cond.callees ++ yes.callees ++ Stmt.optionCallees no
  | .doWhile cond body => cond.callees ++ body.callees
  | .write items => Expr.allCallees (Stmt.write items).exprs
  | .declare .. | .brk | .ret | .read _ => []

def Stmt.optionCallees : Option Stmt → List String
  | none => []
  | some st => st.callees

def Stmt.allCallees : List Stmt → List String
  | [] => []
  | st :: rest => st.callees ++ Stmt.allCallees rest

end

namespace Stmt

variable {st part : Stmt} {name : String}

theorem mem_allCallees {body : List Stmt} :
    name ∈ allCallees body ↔ ∃ st ∈ body, name ∈ st.callees := by
  induction body with
  | nil => simp [allCallees]
  | cons st rest ih => simp [allCallees, ih]

theorem mem_callees_of_mem_exprs {e : Expr} (h : e ∈ st.exprs) (hname : name ∈ e.callees) :
    name ∈ st.callees := by
  cases st with
  | assign target value | invoke value =>
    obtain rfl := List.mem_singleton.1 h
    exact hname
  | ite cond yes no =>
    obtain rfl := List.mem_singleton.1 h
    simp [callees, hname]
  | doWhile cond body =>
    obtain rfl := List.mem_singleton.1 h
    simp [callees, hname]
  | write items => exact Expr.mem_allCallees.2 ⟨e, h, hname⟩
  | declare | block | seq | brk | ret | read => simp [exprs] at h

theorem mem_callees_of_mem_parts (h : part ∈ st.parts) (hname : name ∈ part.callees) :
    name ∈ st.callees := by
  cases st with
  | block body | seq body => exact mem_allCallees.2 ⟨part, h, hname⟩
  | ite cond yes no =>
    simp only [parts, List.mem_cons, Option.mem_toList] at h
    rcases h with rfl | h
    · simp [callees, hname]
    · cases h
      simp [callees, optionCallees, hname]
  | doWhile cond body =>
    obtain rfl := List.mem_singleton.1 h
    simp [callees, hname]
  | declare | assign | brk | ret | read | write | invoke => simp [parts] at h

end Stmt

/-! ### Programs -/

namespace Program

variable {p : Program} {st : Stmt} {name : String}

/-- The methods that the fields and the methods of a program call. -/
def callees (p : Program) : List String :=
  Stmt.allCallees p.fields ++ p.methods.flatMap fun m => Stmt.allCallees m.body

theorem mem_callees_of_field (h : st ∈ p.fields) (hname : name ∈ st.callees) :
    name ∈ p.callees := by
  rw [callees, List.mem_append]
  exact .inl (Stmt.mem_allCallees.2 ⟨st, h, hname⟩)

theorem mem_callees_of_method {m : Method} (hm : m ∈ p.methods) (h : st ∈ m.body)
    (hname : name ∈ st.callees) : name ∈ p.callees := by
  rw [callees, List.mem_append]
  exact .inr (List.mem_flatMap.2 ⟨m, hm, Stmt.mem_allCallees.2 ⟨st, h, hname⟩⟩)

end Program

end MethodLang
