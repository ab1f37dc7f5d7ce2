import Mathlib.Logic.Relation
import MethodLang.Proofs.Results
import MethodLang.Proofs.Scopes.Later
import MethodLang.Proofs.Termination

/-!
# What evaluation begins

To evaluate an expression or to execute a statement is a task, and a task begins others: operands,
arguments, the statements of a block, the statements of a method that is called. Each begins on the
machine that what came before it has left. Tasks are begun whether or not the run ever ends, and
whether or not it fails later; a run without end has begun what it begins with some number of steps.

* `Begins` follows the rules of evaluation, one or more for each construct, and `Program.Starts`
  those of programs;
* `Machine.SeesResult` says that the variable for the result of the innermost method is visible from
  a scope, and `Begins.seesResult` that this is so wherever a statement is begun if it is so before.
-/

namespace MethodLang

/-- Something to do in a scope, on a machine, with a number of steps. -/
inductive Task
  | eval (n : Nat) (scope : ScopeId) (e : Expr) (m : Machine)
  | exec (n : Nat) (scope : ScopeId) (st : Stmt) (m : Machine)

/-- What a call begins: arguments, as long as those before are bound to parameters, and, once all of
them are bound and the variable for the result is declared, the statements of the method. -/
inductive CallBegins (w : Setting) (n : Nat) (scope : ScopeId) (parent : Option ScopeId)
    (name : String) (args : List Expr) (m : Machine) : Task → Prop
  | argument {method : Method} {bound : Machine} {before after : List Expr} {arg : Expr}
      (hmethod : w.method? name = some method) (hdepth : m.calls.size < w.limit)
      (hargs : args = before ++ arg :: after)
      (hbound : bindArgs (evalExpr w n scope) m.scopes.next
        (.argumentCount name method.params.length args.length)
        (method.params.take before.length) before
        { m with scopes := m.scopes.push parent } = .done () bound) :
      CallBegins w n scope parent name args m (.eval n scope arg bound)
  | statement {method : Method} {bound m' : Machine} {scopes : Scopes} {before after : List Stmt}
      {st : Stmt}
      (hmethod : w.method? name = some method) (hdepth : m.calls.size < w.limit)
      (hbound : bindArgs (evalExpr w n scope) m.scopes.next
        (.argumentCount name method.params.length args.length) method.params args
        { m with scopes := m.scopes.push parent } = .done () bound)
      (hresult : bound.scopes.declare m.scopes.next method.name .int = .ok scopes)
      (hbody : method.body = before ++ st :: after)
      (hbefore : execAll (execStmt w n m.scopes.next) before
        { bound with scopes, calls := bound.calls.push method.name } = .done .normal m') :
      CallBegins w n scope parent name args m (.exec n m.scopes.next st m')

/-- What a task begins, with one step less than it has itself. -/
inductive Begins (w : Setting) : Task → Task → Prop
  | left {n scope lhs op rhs m} :
      Begins w (.eval (n + 1) scope (.binary lhs op rhs) m) (.eval n scope lhs m)
  | right {n scope lhs op rhs l m m'} (hlhs : evalExpr w n scope lhs m = .done l m') :
      Begins w (.eval (n + 1) scope (.binary lhs op rhs) m) (.eval n scope rhs m')
  | call {n scope name args m t} (hcall : CallBegins w n scope none name args m t) :
      Begins w (.eval (n + 1) scope (.call name args) m) t
  | assign {n scope name value m} :
      Begins w (.exec (n + 1) scope (.assign name value) m) (.eval n scope value m)
  | block {n scope before st after m m'}
      (hbefore : execAll (execStmt w n m.scopes.next) before
        { m with scopes := m.scopes.push (some scope) } = .done .normal m') :
      Begins w (.exec (n + 1) scope (.block (before ++ st :: after)) m)
        (.exec n m.scopes.next st m')
  | seq {n scope before st after m m'}
      (hbefore : execAll (execStmt w n scope) before m = .done .normal m') :
      Begins w (.exec (n + 1) scope (.seq (before ++ st :: after)) m) (.exec n scope st m')
  | iteCond {n scope cond yes no m} :
      Begins w (.exec (n + 1) scope (.ite cond yes no) m) (.eval n scope cond m)
  | iteYes {n scope cond yes no m m'} (hcond : evalExpr w n scope cond m = .done (.bool true) m') :
      Begins w (.exec (n + 1) scope (.ite cond yes no) m) (.exec n scope yes m')
  | iteNo {n scope cond yes no m m'} (hcond : evalExpr w n scope cond m = .done (.bool false) m') :
      Begins w (.exec (n + 1) scope (.ite cond yes (some no)) m) (.exec n scope no m')
  | loopBody {n scope cond body m} :
      Begins w (.exec (n + 1) scope (.doWhile cond body) m) (.exec n scope body m)
  | loopCond {n scope cond body m m'} (hbody : execStmt w n scope body m = .done .normal m') :
      Begins w (.exec (n + 1) scope (.doWhile cond body) m) (.eval n scope cond m')
  | loopAgain {n scope cond body m m' m''}
      (hbody : execStmt w n scope body m = .done .normal m')
      (hcond : evalExpr w n scope cond m' = .done (.bool true) m'') :
      Begins w (.exec (n + 1) scope (.doWhile cond body) m)
        (.exec n scope (.doWhile cond body) m'')
  | item {n scope before value after m m'}
      (hbefore : writeAll (evalExpr w n scope) before m = .done () m') :
      Begins w (.exec (n + 1) scope (.write (before ++ .expr value :: after)) m)
        (.eval n scope value m')
  | invoke {n scope value m} :
      Begins w (.exec (n + 1) scope (.invoke value) m) (.eval n scope value m)

namespace Program

/-- What a run of the program, or the evaluation of an expression in it, begins of its own: the
fields, what calling the entry method begins, and the expression. -/
inductive Starts (p : Program) (n : Nat) (console : Console) : Task → Prop
  | field {entry : String} {before after : List Stmt} {st : Stmt} {m : Machine}
      (hentry : p.entry = some entry) (hfields : p.fields = before ++ st :: after)
      (h : execAll (execStmt p.setting n Scopes.root) before ⟨.initial, #[], console⟩ =
        .done .normal m) : Starts p n console (.exec n Scopes.root st m)
  | entry {entry : String} {signal : Signal} {m : Machine} {t : Task}
      (hentry : p.entry = some entry)
      (h : execAll (execStmt p.setting n Scopes.root) p.fields ⟨.initial, #[], console⟩ =
        .done signal m)
      (hcall : CallBegins p.setting n Scopes.root (some Scopes.root) entry [] m t) :
      Starts p n console t
  | expression (e : Expr) : Starts p n console (.eval n Scopes.root e ⟨p.scopes, #[], console⟩)

/-- What a run, or the evaluation of an expression, begins, of its own or in the course of other
tasks. -/
def Does (p : Program) (n : Nat) (console : Console) (t : Task) : Prop :=
  ∃ first, p.Starts n console first ∧ Relation.ReflTransGen (Begins p.setting) first t

end Program

/-! ### The variable for the result -/

variable {w : Setting} {n : Nat} {scope : ScopeId} {m m' : Machine} {name : String} {t t' : Task}

namespace Scopes

variable {s t : Scopes} {holder : ScopeId} {slot : Slot}

theorem isVisible_iff_env : s.isVisible scope name ↔ ((s.env scope).slot? name).isSome := by
  rw [isVisible, ← resolve_slot, Option.isSome_map]

theorem live_of_isVisible (h : s.isVisible scope name) : s.Live scope := by
  by_contra hl
  rw [isVisible_iff_env, env, chain_of_not_live hl] at h
  cases h

theorem Extends.isVisible (h : s.Extends t) (hl : s.Live scope) :
    t.isVisible scope name ↔ s.isVisible scope name := by
  rw [isVisible_iff_env, h.env hl, isVisible_iff_env]

/-- A new scope sees what its parent sees. -/
theorem isVisible_push_next (h : s.isVisible scope name) :
    (s.push (some scope)).isVisible s.next name := by
  have hl := live_of_isVisible h
  rw [isVisible_iff_env, env_push_next (by simpa using hl)]
  exact isVisible_iff_env.1 h

/-- What is bound to a slot stays visible. -/
theorem isVisible_put (h : s.isVisible scope name) (other : String) :
    (s.put holder other slot).isVisible scope name := by
  have hl := live_of_isVisible h
  obtain ⟨⟨found, old⟩, hfound⟩ := Option.isSome_iff_exists.1 h
  rw [isVisible, resolve_eq_findSome?, List.findSome?_isSome_iff]
  refine ⟨found, ?_, ?_⟩
  · rw [(agreeOff_put_self s holder other slot).chain]
    exact mem_chain_of_resolve hfound
  · rw [own?_eq, Option.isSome_map]
    have hfind := find?_of_resolve hfound
    by_cases heq : found = holder
    · subst heq
      rw [slotsAt_put_self (live_of_mem_chain (mem_chain_of_resolve hfound)), Bindings.find?_insert]
      split
      · rfl
      · rw [hfind]; rfl
    · rw [slotsAt_put_of_ne heq, hfind]
      rfl

/-- What an older scope sees is still visible from it once a later scope is released. -/
theorem isVisible_of_push {parent : Option ScopeId} (h : (s.push parent).isVisible scope name →
    t.isVisible scope name) (hs : s.isVisible scope name) :
    (t.release s.next).isVisible scope name := by
  have hl := live_of_isVisible hs
  have ht := h (((extends_push s parent).isVisible hl).2 hs)
  have hlive : (t.release s.next).Live scope := by
    have hlt : scope.index < s.next.index := hl
    have hlt' : scope.index < t.size := live_of_isVisible ht
    rw [Live, size_release]
    omega
  exact ((extends_release t s.next).isVisible hlive).1 ht

end Scopes

/-- The same calls are active, and all that was visible from a scope still is. -/
structure Machine.SeesOn (m m' : Machine) : Prop where
  calls : m.calls = m'.calls
  visible (scope : ScopeId) (name : String) (h : m.scopes.isVisible scope name) :
    m'.scopes.isVisible scope name

instance : IsPreorder Machine Machine.SeesOn where
  refl _ := ⟨rfl, fun _ _ h => h⟩
  trans _ _ _ h h' :=
    ⟨h.calls.trans h'.calls, fun scope name hs => h'.visible scope name (h.visible scope name hs)⟩

/-- Evaluation takes nothing out of sight. -/
theorem seesOn_stable : Machine.Stable Machine.SeesOn where
  declare {m scope name ty scopes} h := by
    obtain ⟨-, rfl⟩ := Scopes.declare_eq_ok_iff.1 h
    exact ⟨rfl, fun _ _ hs => Scopes.isVisible_put hs _⟩
  assign {m scope name value scopes} h := by
    obtain ⟨_, _, -, -, rfl⟩ := Scopes.assign_eq_ok_iff.1 h
    exact ⟨rfl, fun _ _ hs => Scopes.isVisible_put hs _⟩
  readInt _ := ⟨rfl, fun _ _ hs => hs⟩
  put _ _ := ⟨rfl, fun _ _ hs => hs⟩
  inScope _ h := ⟨h.calls, fun scope name => Scopes.isVisible_of_push (h.visible scope name)⟩
  inCall name h := ⟨calls_stable.inCall name h.calls, h.visible⟩

/-- The variable for the result of the innermost method, if there is one, is visible from the
scope. -/
def Machine.SeesResult (m : Machine) (scope : ScopeId) : Prop :=
  ∀ name ∈ m.calls.back?, m.scopes.isVisible scope name

theorem Machine.SeesOn.seesResult (h : m.SeesOn m') (hm : m.SeesResult scope) :
    m'.SeesResult scope := by
  intro name hname
  rw [← h.calls] at hname
  exact h.visible scope name (hm name hname)

theorem seesResult_of_execAll {body : List Stmt} {signal : Signal} (hm : m.SeesResult scope)
    (h : execAll (execStmt w n scope) body m = .done signal m') : m'.SeesResult scope :=
  ((seesOn_stable.keeps_execAll (seesOn_stable.keeps_execStmt w n scope) body).of_done h).seesResult
    hm

/-- When the body of a method begins, its variable is declared in the scope of the method. -/
theorem seesResult_of_declare {scopes s : Scopes} {calls : Array String} {console : Console}
    (hl : s.Live scope) (h : s.declare scope name .int = .ok scopes) :
    Machine.SeesResult ⟨scopes, calls.push name, console⟩ scope := by
  obtain ⟨-, rfl⟩ := Scopes.declare_eq_ok_iff.1 h
  intro other hother
  obtain rfl : name = other := Option.some.inj (Array.back?_push.symm.trans hother)
  rw [Scopes.isVisible, Scopes.resolve_put_self _ hl]
  rfl

/-! ### Tasks -/

/-- The variable for the result of the innermost method is visible where a statement is begun. -/
def Task.SeesResult : Task → Prop
  | .eval .. => True
  | .exec _ scope _ m => m.SeesResult scope

/-- A call brings its own variable for the result. -/
theorem CallBegins.seesResult {parent : Option ScopeId} {args : List Expr}
    (h : CallBegins w n scope parent name args m t) : t.SeesResult := by
  cases h with
  | argument => trivial
  | statement _ _ hbound hresult _ hbefore =>
    refine seesResult_of_execAll (seesResult_of_declare ?_ hresult) hbefore
    have hkeeps := later_stable.keeps_bindArgs (later_stable.keeps_evalExpr w n scope)
    exact ((hkeeps _ _ _ _).of_done hbound).live (Scopes.live_push_next m.scopes parent)

/-- What a task begins sees its result if the task does. -/
theorem Begins.seesResult (h : Begins w t t') (ht : t.SeesResult) : t'.SeesResult := by
  cases h with
  | left | right | assign | iteCond | loopCond | item | invoke => trivial
  | call hcall => exact hcall.seesResult
  | block hbefore =>
    refine seesResult_of_execAll (fun name hname => ?_) hbefore
    exact Scopes.isVisible_push_next (ht name hname)
  | seq hbefore => exact seesResult_of_execAll ht hbefore
  | iteYes hcond | iteNo hcond =>
    exact ((seesOn_stable.keeps_evalExpr w _ _ _).of_done hcond).seesResult ht
  | loopBody => exact ht
  | loopAgain hbody hcond =>
    have hbody := (seesOn_stable.keeps_execStmt w _ _ _).of_done hbody
    exact ((seesOn_stable.keeps_evalExpr w _ _ _).of_done hcond).seesResult (hbody.seesResult ht)

namespace Program

variable {p : Program} {console : Console}

theorem Starts.seesResult (h : p.Starts n console t) : t.SeesResult := by
  cases h with
  | field _ _ hbefore =>
    -- no call is active while the fields are executed
    exact seesResult_of_execAll (fun name hname => by cases hname) hbefore
  | entry _ _ hcall => exact hcall.seesResult
  | expression => trivial

/-- Whatever a program does, the variable for the result of the innermost method is visible. -/
theorem Does.seesResult (h : p.Does n console t) : t.SeesResult := by
  obtain ⟨first, hfirst, hbegins⟩ := h
  induction hbegins with
  | refl => exact hfirst.seesResult
  | tail _ hstep ih => exact hstep.seesResult ih

end Program

end MethodLang
