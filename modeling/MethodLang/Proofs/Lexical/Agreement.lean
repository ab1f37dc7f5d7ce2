import MethodLang.Proofs.Alike
import MethodLang.Proofs.Lexical.Variables
import MethodLang.Proofs.Parts

/-!
# Statements in environments that agree

A statement does the same in two environments that agree on the variables that occur in it, as long
as declarations, assignments and blocks keep them in agreement. How two environments agree may
differ from case to case, and may depend on how many blocks have been entered since the statement
began.

* `Stmt.names` are the variables of a statement;
* `Agreement` says that a relation between environments is such an agreement;
* `Agreement.execStmt` says that statements act alike under it.
-/

namespace MethodLang

/-! ### Variables of statements -/

mutual

/-- The variables that occur in a statement: declared, assigned, read into or in an expression. -/
def Stmt.names : Stmt → List String
  | .declare name _ => [name]
  | .assign name value => name :: value.vars
  | .block body | .seq body => Stmt.allNames body
  | .ite cond yes no => cond.vars ++ yes.names ++ Stmt.optionNames no
  | .doWhile cond body => cond.vars ++ body.names
  | .read targets => targets
  | .write items => Expr.allVars (Stmt.write items).exprs
  | .invoke value => value.vars
  | .brk | .ret => []

def Stmt.optionNames : Option Stmt → List String
  | none => []
  | some st => st.names

def Stmt.allNames : List Stmt → List String
  | [] => []
  | st :: rest => st.names ++ Stmt.allNames rest

end

namespace Stmt

variable {st part : Stmt} {x : String}

theorem mem_allNames {body : List Stmt} : x ∈ allNames body ↔ ∃ st ∈ body, x ∈ st.names := by
  induction body with
  | nil => simp [allNames]
  | cons st rest ih => simp [allNames, ih]

theorem mem_names_of_mem_exprs {e : Expr} (h : e ∈ st.exprs) (hx : x ∈ e.vars) : x ∈ st.names := by
  cases st with
  | assign target value | invoke value =>
    obtain rfl := List.mem_singleton.1 h
    simp [names, hx]
  | ite cond yes no =>
    obtain rfl := List.mem_singleton.1 h
    simp [names, hx]
  | doWhile cond body =>
    obtain rfl := List.mem_singleton.1 h
    simp [names, hx]
  | write items => exact Expr.mem_allVars.2 ⟨e, h, hx⟩
  | declare | block | seq | brk | ret | read => simp [exprs] at h

theorem mem_names_of_mem_parts (h : part ∈ st.parts) (hx : x ∈ part.names) : x ∈ st.names := by
  cases st with
  | block body | seq body => exact mem_allNames.2 ⟨part, h, hx⟩
  | ite cond yes no =>
    simp only [parts, List.mem_cons, Option.mem_toList] at h
    rcases h with rfl | h
    · simp [names, hx]
    · cases h
      simp [names, optionNames, hx]
  | doWhile cond body =>
    obtain rfl := List.mem_singleton.1 h
    simp [names, hx]
  | declare | assign | brk | ret | read | write | invoke => simp [parts] at h

end Stmt

namespace Lexical

/-! ### Environments -/

/-- After `k` more blocks have been entered than left, the related environments agree on the names
`N`, and go on to do so. -/
structure Agreement (N : String → Prop) (E : Nat → Env → Env → Prop) : Prop where
  slot? {k : Nat} {env env' : Env} {name : String} (h : E k env env') (hname : N name) :
    env.slot? name = env'.slot? name
  bindFront {k : Nat} {env env' : Env} {name : String} (h : E k env env') (hname : N name)
    (hnew : env.slot? name = none) (slot : Slot) :
    E k (env.bindFront name slot) (env'.bindFront name slot)
  store {k : Nat} {env env' : Env} {name : String} {old : Slot} (h : E k env env') (hname : N name)
    (hold : env.slot? name = some old) (slot : Slot) :
    E k (env.store name slot) (env'.store name slot)
  push {k : Nat} {env env' : Env} (h : E k env env') : E (k + 1) (.empty :: env) (.empty :: env')
  tail {k : Nat} {env env' : Env} (h : E (k + 1) env env') : E k env.tail env'.tail

/-- The same console and related environments. -/
structure State.Agree (E : Env → Env → Prop) (s s' : State) : Prop where
  env : E s.env s'.env
  console : s.console = s'.console

/-- Empty bindings put in front of related environments, and dropped at the end. -/
theorem alike_inFront {α : Type} {E E' : Env → Env → Prop} {x y : Action State α}
    (hpush : ∀ env env', E env env' → E' (.empty :: env) (.empty :: env'))
    (htail : ∀ env env', E' env env' → E env.tail env'.tail)
    (hxy : Action.Alike (State.Agree E') x y) :
    Action.Alike (State.Agree E) (inFront x) (inFront y) := by
  intro s t hst
  have hopen : State.Agree E' { s with env := .empty :: s.env } { t with env := .empty :: t.env } :=
    ⟨hpush _ _ hst.env, hst.console⟩
  exact (hxy _ _ hopen).map fun s' t' hst' => ⟨htail _ _ hst'.env, hst'.console⟩

namespace Agreement

variable {N : String → Prop} {E : Nat → Env → Env → Prop} {k : Nat} {env env' : Env} {name : String}
  {α : Type}

theorem valueOf (h : Agreement N E) (hE : E k env env') (hname : N name) :
    env.valueOf name = env'.valueOf name := by
  rw [Env.valueOf, Env.valueOf, h.slot? hE hname]

theorem lookup (h : Agreement N E) (hE : E k env env') (hname : N name) :
    env.lookup name = env'.lookup name := by
  rw [Env.lookup, Env.lookup, h.slot? hE hname]

/-! ### Actions -/

theorem alike_evaluating (h : Agreement N E) (w : Setting) (n depth : Nat) {e : Expr}
    (he : ∀ x ∈ e.vars, N x) :
    Action.Alike (State.Agree (E k)) (evaluating fun env => evalExpr w n depth env e)
      (evaluating fun env => evalExpr w n depth env e) := by
  intro s t hst
  have hvalues : ∀ x ∈ e.vars, s.env.valueOf x = t.env.valueOf x := fun x hx =>
    h.valueOf hst.env (he x hx)
  simp only [evaluating, evalExpr_congr w hvalues, hst.console]
  cases evalExpr w n depth t.env e t.console with
  | done a c => exact .done ⟨hst.env, rfl⟩
  | failed cause c => exact .failed ⟨hst.env, rfl⟩
  | unfinished => exact .unfinished

theorem alike_query {f : Env → Except EvalError α}
    (hf : ∀ env env', E k env env' → f env = f env') :
    Action.Alike (State.Agree (E k)) (query f) (query f) := by
  intro s t hst
  simp only [query, hf _ _ hst.env]
  cases f t.env with
  | ok a => exact .done hst
  | error e => exact .failed hst

theorem alike_lookup (h : Agreement N E) (hname : N name) :
    Action.Alike (State.Agree (E k)) (query (·.lookup name)) (query (·.lookup name)) :=
  alike_query fun _ _ hE => h.lookup hE hname

theorem alike_valueOf (h : Agreement N E) (hname : N name) :
    Action.Alike (State.Agree (E k)) (query (·.valueOf name)) (query (·.valueOf name)) :=
  alike_query fun _ _ hE => h.valueOf hE hname

theorem alike_declare (h : Agreement N E) (hname : N name) (ty : Ty) :
    Action.Alike (State.Agree (E k)) (update (·.declare name ty)) (update (·.declare name ty)) := by
  intro s t hst
  have hslot := h.slot? hst.env hname
  simp only [update, Env.declare, Env.introduce]
  cases hs : s.env.slot? name with
  | none =>
    rw [← hslot, hs]
    exact .done ⟨h.bindFront hst.env hname hs _, hst.console⟩
  | some old =>
    rw [← hslot, hs]
    exact .failed hst

theorem alike_assign (h : Agreement N E) (hname : N name) (value : Value) :
    Action.Alike (State.Agree (E k)) (update (·.assign name value))
      (update (·.assign name value)) := by
  intro s t hst
  have hslot := h.slot? hst.env hname
  simp only [update, Env.assign]
  cases hs : s.env.slot? name with
  | none =>
    rw [← hslot, hs]
    exact .failed hst
  | some old =>
    rw [← hslot, hs]
    by_cases hty : old.ty.accepts value.ty
    · simp only [if_pos hty]
      exact .done ⟨h.store hst.env hname hs _, hst.console⟩
    · simp only [if_neg hty]
      exact .failed hst

theorem alike_onConsole (f : Console → Except ConsoleError α × Console) :
    Action.Alike (State.Agree (E k)) (onConsole f) (onConsole f) := by
  intro s t hst
  simp only [onConsole, hst.console]
  rcases f t.console with ⟨e | a, c⟩
  · exact .failed ⟨hst.env, rfl⟩
  · exact .done ⟨hst.env, rfl⟩

theorem alike_readAll (h : Agreement N E) {targets : List String} (htargets : ∀ x ∈ targets, N x) :
    Action.Alike (State.Agree (E k)) (readAll targets) (readAll targets) := by
  induction targets with
  | nil => exact .pure _
  | cons target rest ih =>
    rw [List.forall_mem_cons] at htargets
    refine (alike_onConsole _).bind fun n => ?_
    exact (h.alike_assign htargets.1 (.int n)).bind fun _ => ih htargets.2

theorem alike_writeAll (h : Agreement N E) (w : Setting) (n depth : Nat) {items : List WriteItem}
    (hitems : ∀ e ∈ (Stmt.write items).exprs, ∀ x ∈ e.vars, N x) :
    Action.Alike (State.Agree (E k)) (writeAll (fun env e => evalExpr w n depth env e) items)
      (writeAll (fun env e => evalExpr w n depth env e) items) := by
  induction items with
  | nil => exact .pure _
  | cons item rest ih =>
    cases item with
    | text content => exact (alike_onConsole _).bind fun _ => ih hitems
    | expr value =>
      simp only [Stmt.exprs, List.filterMap_cons, List.forall_mem_cons] at hitems
      refine (h.alike_evaluating w n depth hitems.1).bind fun v => ?_
      cases v.render? with
      | none => exact .fail _
      | some content => exact (alike_onConsole _).bind fun _ => ih hitems.2

theorem alike_findResult (h : Agreement N E) {act : Activation}
    (hact : ∀ name ∈ act.method, N name) :
    Action.Alike (State.Agree (E k)) (findResult act) (findResult act) := by
  rw [findResult]
  cases hmethod : act.method with
  | none => exact .pure _
  | some name => exact (h.alike_lookup (hact name hmethod)).bind fun _ => .pure _

/-! ### Statements -/

/-- A statement acts alike in environments that agree on its variables and on the name of the
innermost method. -/
theorem execStmt (h : Agreement N E) (w : Setting) (n : Nat) {act : Activation}
    (hact : ∀ name ∈ act.method, N name) {st : Stmt} (hst : ∀ x ∈ st.names, N x) (k : Nat) :
    Action.Alike (State.Agree (E k)) (execStmt w n act st) (Lexical.execStmt w n act st) := by
  induction n generalizing st k with
  | zero => exact .unfinished
  | succ n ih =>
    have heval : ∀ e ∈ st.exprs, Action.Alike (State.Agree (E k))
        (evaluating fun env => evalExpr w n act.depth env e)
        (evaluating fun env => evalExpr w n act.depth env e) := fun e he =>
      h.alike_evaluating w n act.depth fun x hx => hst x (Stmt.mem_names_of_mem_exprs he hx)
    have hparts : ∀ part ∈ st.parts, ∀ k, Action.Alike (State.Agree (E k))
        (Lexical.execStmt w n act part) (Lexical.execStmt w n act part) := fun part hpart =>
      ih fun x hx => hst x (Stmt.mem_names_of_mem_parts hpart hx)
    cases st with
    | declare name ty =>
      rw [Lexical.execStmt]
      exact (h.alike_declare (hst name List.mem_cons_self) _).bind fun _ => .pure _
    | assign name value =>
      rw [Lexical.execStmt]
      refine (heval value List.mem_cons_self).bind fun v => ?_
      exact (h.alike_assign (hst name List.mem_cons_self) v).bind fun _ => .pure _
    | block body =>
      rw [Lexical.execStmt]
      exact alike_inFront (fun _ _ => h.push) (fun _ _ => h.tail)
        (.execAll body fun st hmem => hparts st hmem (k + 1))
    | seq body =>
      rw [Lexical.execStmt]
      exact .execAll body fun st hmem => hparts st hmem k
    | ite cond yes no =>
      rw [Lexical.execStmt]
      refine (heval cond List.mem_cons_self).bind fun v => ?_
      refine (Action.Alike.ofExcept _).bind fun truth => ?_
      cases truth with
      | true => exact hparts yes List.mem_cons_self k
      | false =>
        exact .execOption no fun st hmem =>
          hparts st (List.mem_cons_of_mem _ (Option.mem_toList.2 hmem)) k
    | doWhile cond body =>
      rw [Lexical.execStmt]
      refine (hparts body List.mem_cons_self k).bind fun signal => ?_
      cases signal with
      | brk | ret => exact .pure _
      | normal =>
        refine (heval cond List.mem_cons_self).bind fun v => ?_
        refine (Action.Alike.ofExcept _).bind fun truth => ?_
        cases truth with
        | true => exact ih hst k
        | false => exact .pure _
    | brk => exact .pure _
    | ret =>
      rw [Lexical.execStmt]
      exact (h.alike_findResult hact).bind fun _ => .pure _
    | read targets =>
      rw [Lexical.execStmt]
      exact (h.alike_readAll hst).bind fun _ => .pure _
    | write items =>
      rw [Lexical.execStmt]
      refine (h.alike_writeAll w n act.depth fun e he x hx => hst x ?_).bind fun _ => ?_
      · exact Stmt.mem_names_of_mem_exprs he hx
      · exact (alike_onConsole _).bind fun _ => .pure _
    | invoke value =>
      rw [Lexical.execStmt]
      exact (heval value List.mem_cons_self).bind fun _ => .pure _

end Agreement

end Lexical

end MethodLang
