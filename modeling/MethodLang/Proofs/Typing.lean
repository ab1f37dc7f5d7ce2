import Mathlib
import MethodLang.Proofs.Evaluation
import MethodLang.Proofs.Operators
import MethodLang.Proofs.Results
import MethodLang.Proofs.Scopes.Later
import MethodLang.Proofs.SlotTypes

/-!
# Types of expressions

Declarations determine the type of whatever an expression gives: a variable has the type of its
slot, an operator that of its class, and a call an integer, unless the method has no return type.
Only the values of parameters are of types that nothing declares, and they are in slots of these
types.

* `callMethod_ty`: the variable for the result of a method is declared as an integer and stays one,
  whatever the body does;
* `evalExpr_ty`: an expression that gives a value gives one of its type, and then all operands in it
  were acceptable;
* `evalExpr_failure`: without calls, acceptable operands leave only two ways to fail;
* `declarations_determine_types` states this for all reachable arenas.
-/

namespace MethodLang

open MethodLang.Action (bind_eq_done_iff bind_eq_failed_iff pure_eq_done_iff ofExcept_eq_done_iff
  ofExcept_eq_failed_iff query_eq_done_iff query_eq_failed_iff update_eq_done_iff)

/-! ### The type of an expression -/

/-- The type of what a method gives: the absent value without a return type, and else an integer,
even if another type is declared. -/
def Method.resultTy (m : Method) : Ty := if m.returns = .undefined then .undefined else .int

/-- An operator accepts its operands, if both have a type. -/
def BinOp.fits (op : BinOp) : Option Ty → Option Ty → Bool
  | some l, some r => op.opClass.accepts l r
  | _, _ => false

namespace Expr

section

variable (w : Setting) (s : Scopes) (scope : ScopeId)

/-- The type of what an expression in a scope gives, if its variable or its method is there. -/
def ty? : Expr → Option Ty
  | .lit l => some l.value.ty
  | .var name => (s.resolve scope name).map fun (_, slot) => slot.ty
  | .binary _ op _ => some op.opClass.resultTy
  | .call name _ => (w.method? name).map Method.resultTy

mutual

/-- Every operator in an expression accepts its operands. -/
def operandsFit : Expr → Bool
  | .lit _ | .var _ => true
  | .binary lhs op rhs =>
    lhs.operandsFit && rhs.operandsFit && op.fits (lhs.ty? w s scope) (rhs.ty? w s scope)
  | .call _ args => allOperandsFit args

def allOperandsFit : List Expr → Bool
  | [] => true
  | e :: es => e.operandsFit && allOperandsFit es

end

variable {w s scope}

theorem allOperandsFit_iff {es : List Expr} :
    allOperandsFit w s scope es ↔ ∀ e ∈ es, e.operandsFit w s scope := by
  induction es with
  | nil => simp [allOperandsFit]
  | cons e es ih => simp [allOperandsFit, ih]

end

/-- No call stands in an expression. -/
def callFree : Expr → Bool
  | .lit _ | .var _ => true
  | .binary lhs _ rhs => lhs.callFree && rhs.callFree
  | .call .. => false

end Expr

/-! ### Results of calls -/

variable {w : Setting} {n : Nat} {m m' : Machine} {scope callee : ScopeId} {v : Value}

/-- The result of a method, run in a live scope, comes from the slot that was declared for it. -/
theorem runMethod_ty (h : m.scopes.WellTyped) (hl : m.scopes.Live callee) {method : Method}
    (hv : runMethod (execStmt w n) callee method m = .done v m') : v.ty = method.resultTy := by
  obtain ⟨_, m₁, hdeclare, hrest⟩ := bind_eq_done_iff.1 hv
  obtain ⟨signal, m₂, hbody, hresult⟩ := bind_eq_done_iff.1 hrest
  obtain ⟨scopes, hscopes, rfl⟩ := update_eq_done_iff.1 hdeclare
  obtain ⟨-, rfl⟩ := Scopes.declare_eq_ok_iff.1 hscopes
  rw [Method.resultTy]
  by_cases hnone : method.returns = .undefined
  · rw [if_pos hnone] at hresult ⊢
    obtain ⟨rfl, -⟩ := pure_eq_done_iff.1 hresult
    rfl
  · rw [if_neg hnone] at hresult ⊢
    obtain ⟨hvalue, -⟩ := query_eq_done_iff.1 hresult
    have hdeclared := (h.declare callee method.name .int).of_result hscopes
    have htyped : m₂.scopes.WellTyped := by
      refine (wellTyped_stable.keeps_inCall method.name ?_).of_done hbody hdeclared
      exact wellTyped_stable.keeps_execAll (wellTyped_stable.keeps_execStmt w n callee) method.body
    have hlater : (m.scopes.put callee method.name ⟨.int, false, .untyped⟩).Later m₂.scopes := by
      refine (later_stable.keeps_inCall method.name ?_).of_done hbody
      exact later_stable.keeps_execAll (later_stable.keeps_execStmt w n callee) method.body
    -- the slot that is read at the end is the one that was declared
    have hnew := Scopes.find?_of_resolve
      (Scopes.resolve_put_self m.scopes hl method.name ⟨.int, false, .untyped⟩)
    obtain ⟨slot, hslot, hint⟩ := hlater.exists_slot (Scopes.live_put_iff.2 hl) hnew
    obtain ⟨holder, found, hfound, -, hty⟩ := htyped.valueOf hvalue
    rw [hslot, Option.some.injEq, Prod.mk.injEq] at hfound
    rw [hty, ← hfound.2, hint]

/-- A call gives a value of its method's type. -/
theorem callMethod_ty (h : m.scopes.WellTyped) {parent : Option ScopeId} {name : String}
    {args : List Expr}
    (hv : callMethod w (evalExpr w n scope) (execStmt w n) parent name args m = .done v m') :
    ∃ method, w.method? name = some method ∧ v.ty = method.resultTy := by
  rw [callMethod] at hv
  cases hmethod : w.method? name with
  | none => simp [hmethod, Action.fail] at hv
  | some method =>
    refine ⟨method, rfl, ?_⟩
    simp only [hmethod, Action.depth_bind_apply] at hv
    split at hv
    · cases hv
    · rw [Action.inScope_apply, Outcome.mapState_eq_done_iff] at hv
      obtain ⟨m₂, hdone, -⟩ := hv
      obtain ⟨_, m₁, hargs, hrun⟩ := bind_eq_done_iff.1 hdone
      have hkeeps := wellTyped_stable.keeps_evalExpr w n scope
      have htyped : m₁.scopes.WellTyped :=
        (wellTyped_stable.keeps_bindArgs hkeeps _ _ _ _).of_done hargs (h.push parent)
      have hlater : (m.scopes.push parent).Later m₁.scopes :=
        (later_stable.keeps_bindArgs (later_stable.keeps_evalExpr w n scope) _ _ _ _).of_done hargs
      exact runMethod_ty htyped (hlater.live (Scopes.live_push_next m.scopes parent)) hrun

theorem Method.resultTy_ne_bool (method : Method) : method.resultTy ≠ .bool := by
  rw [resultTy]
  split <;> simp

/-- Even a method that is declared to return a truth value never gives one. -/
theorem callMethod_ne_bool (h : m.scopes.WellTyped) (parent : Option ScopeId) (name : String)
    (args : List Expr) (b : Bool) :
    callMethod w (evalExpr w n scope) (execStmt w n) parent name args m ≠ .done (.bool b) m' := by
  intro hv
  obtain ⟨method, -, hty⟩ := callMethod_ty h hv
  exact method.resultTy_ne_bool hty.symm

/-! ### Arguments of calls -/

namespace Lexical

variable {c c' : Console}

theorem evaluating_eq_done_iff {α : Type} {eval : Env → Action Console α} {s s' : State} {a : α} :
    evaluating eval s = .done a s' ↔
      ∃ c, eval s.env s.console = .done a c ∧ { s with console := c } = s' := by
  rw [evaluating, Outcome.mapState_eq_done_iff]

/-- Once all arguments are bound, each of them has had a value. -/
theorem exists_value_of_bindArgs {eval : Expr → Action Console Value} {miscount : EvalError}
    {params : List String} {args : List Expr} {s s' : State} {u : Unit}
    (h : bindArgs eval miscount params args s = .done u s') {arg : Expr} (harg : arg ∈ args) :
    ∃ c v c', eval arg c = .done v c' := by
  induction args generalizing params s with
  | nil => cases harg
  | cons first args ih =>
    cases params with
    | nil =>
      obtain ⟨_, _, -, hfail⟩ := bind_eq_done_iff.1 h
      cases hfail
    | cons param params =>
      obtain ⟨v, s₁, hfirst, h⟩ := bind_eq_done_iff.1 h
      obtain ⟨_, s₂, -, h⟩ := bind_eq_done_iff.1 h
      rcases List.mem_cons.1 harg with rfl | harg
      · obtain ⟨c, hc, -⟩ := evaluating_eq_done_iff.1 hfirst
        exact ⟨_, v, c, hc⟩
      · exact ih h harg

theorem exists_value_of_call {w : Setting} {n depth : Nat} {env : Env} {name : String}
    {args : List Expr} (h : evalExpr w (n + 1) depth env (.call name args) c = .done v c')
    {arg : Expr} (harg : arg ∈ args) : ∃ c v c', evalExpr w n depth env arg c = .done v c' := by
  rw [evalExpr, Outcome.mapState_eq_done_iff] at h
  obtain ⟨s, h, -⟩ := h
  rw [callMethod] at h
  cases hmethod : w.method? name with
  | none => simp [hmethod, Action.fail] at h
  | some method =>
    simp only [hmethod] at h
    split at h
    · cases h
    · rw [inFront, Outcome.mapState_eq_done_iff] at h
      obtain ⟨_, h, -⟩ := h
      obtain ⟨_, _, hargs, -⟩ := bind_eq_done_iff.1 h
      exact exists_value_of_bindArgs hargs harg

end Lexical

/-- In a call that gives a value every argument has had one, where the call stands. -/
theorem exists_value_of_call (hl : m.scopes.Live scope) {name : String} {args : List Expr}
    (hv : evalExpr w (n + 1) scope (.call name args) m = .done v m') {arg : Expr}
    (harg : arg ∈ args) :
    ∃ c v m', evalExpr w n scope arg { m with console := c } = .done v m' := by
  have hcall := (Lexical.evalsAs_execsAs w (n + 1)).1 scope (.call name args) m hl m m.console rfl
  obtain ⟨c', hlexical, -⟩ := hcall.done_right hv
  obtain ⟨c, u, c'', hvalue⟩ := Lexical.exists_value_of_call hlexical harg
  have hsame := (Lexical.evalsAs_execsAs w n).1 scope arg m hl { m with console := c } c rfl
  obtain ⟨m'', hm'', -⟩ := hsame.done_left hvalue
  exact ⟨c, u, m'', hm''⟩

/-! ### Soundness -/

variable {s : Scopes} {e : Expr}

theorem scopes_of_evalExpr (hl : s.Live scope) (hm : m.scopes = s)
    (hv : evalExpr w n scope e m = .done v m') : m'.scopes = s := by
  subst hm
  exact ((evalExpr_leaves hl w n e).of_done hv).1

/-- An expression that gives a value gives one of its type, and every operator in it accepted its
operands. -/
theorem evalExpr_ty (h : s.WellTyped) (hl : s.Live scope) (hm : m.scopes = s)
    (hv : evalExpr w n scope e m = .done v m') :
    e.ty? w s scope = some v.ty ∧ e.operandsFit w s scope := by
  induction e using Expr.parts_induction generalizing n m m' v with
  | step e ih =>
    cases n with
    | zero => cases hv
    | succ n =>
      cases e with
      | lit l =>
        obtain ⟨rfl, -⟩ := pure_eq_done_iff.1 hv
        exact ⟨rfl, rfl⟩
      | var name =>
        subst hm
        obtain ⟨hvalue, -⟩ := query_eq_done_iff.1 hv
        obtain ⟨holder, slot, hr, -, hty⟩ := h.valueOf hvalue
        refine ⟨?_, rfl⟩
        rw [Expr.ty?, hr, Option.map_some, hty]
      | binary lhs op rhs =>
        rw [evalExpr] at hv
        obtain ⟨l, m₁, hlhs, hrest⟩ := bind_eq_done_iff.1 hv
        obtain ⟨r, m₂, hrhs, hresult⟩ := bind_eq_done_iff.1 hrest
        obtain ⟨happly, -⟩ := ofExcept_eq_done_iff.1 hresult
        obtain ⟨haccepts, hty⟩ := BinOp.ty_of_apply_eq_ok happly
        -- the second operand sees what the first one saw
        have hscopes : m₁.scopes = s := scopes_of_evalExpr hl hm hlhs
        obtain ⟨hltype, hlfit⟩ := ih lhs (by simp [Expr.parts]) hm hlhs
        obtain ⟨hrtype, hrfit⟩ := ih rhs (by simp [Expr.parts]) hscopes hrhs
        constructor
        · rw [Expr.ty?, hty]
        · rw [Expr.operandsFit, hlfit, hrfit, hltype, hrtype]
          exact haccepts
      | call name args =>
        subst hm
        constructor
        · rw [evalExpr] at hv
          obtain ⟨method, hmethod, hty⟩ := callMethod_ty h hv
          rw [Expr.ty?, hmethod, Option.map_some, hty]
        · rw [Expr.operandsFit, Expr.allOperandsFit_iff]
          intro arg harg
          obtain ⟨c, u, m'', hvalue⟩ := exists_value_of_call hl hv harg
          exact (ih arg harg (m := { m with console := c }) rfl hvalue).2

/-- A visible variable has no value only for want of an assignment. -/
theorem Scopes.uninitialized_of_valueOf {name : String} {cause : EvalError}
    (hvisible : s.isVisible scope name) (h : s.valueOf scope name = .error cause) :
    cause = .uninitializedVariable name := by
  rw [isVisible] at hvisible
  rw [valueOf] at h
  cases hr : s.resolve scope name with
  | none => simp [hr] at hvisible
  | some found =>
    simp only [hr] at h
    split at h
    · cases h
    · cases h
      rfl

/-- Without calls and with acceptable operands, an expression whose variables are visible fails only
for want of the value of a variable, or at a zero divisor. -/
theorem evalExpr_failure {cause : EvalError} (h : s.WellTyped) (hl : s.Live scope)
    (hfree : e.callFree) (hvisible : ∀ x ∈ e.vars, s.isVisible scope x)
    (hfit : e.operandsFit w s scope) (hm : m.scopes = s)
    (hv : evalExpr w n scope e m = .failed cause m') :
    (∃ x ∈ e.vars, cause = .uninitializedVariable x) ∨ ∃ op, cause = .divisionByZero op := by
  induction e using Expr.parts_induction generalizing n m m' with
  | step e ih =>
    cases n with
    | zero => cases hv
    | succ n =>
      cases e with
      | lit l => cases hv
      | var name =>
        subst hm
        left
        have hmem : name ∈ (Expr.var name).vars := by simp [Expr.vars]
        obtain ⟨hvalue, -⟩ := query_eq_failed_iff.1 hv
        exact ⟨name, hmem, Scopes.uninitialized_of_valueOf (hvisible name hmem) hvalue⟩
      | binary lhs op rhs =>
        simp only [Expr.callFree, Bool.and_eq_true] at hfree
        simp only [Expr.operandsFit, Bool.and_eq_true] at hfit
        simp only [Expr.vars, List.mem_append] at hvisible ⊢
        obtain ⟨⟨hlfit, hrfit⟩, haccepts⟩ := hfit
        rw [evalExpr] at hv
        rcases bind_eq_failed_iff.1 hv with hlhs | ⟨l, m₁, hlhs, hrest⟩
        · have hcause := ih lhs (by simp [Expr.parts]) hfree.1 (fun x hx => hvisible x (.inl hx))
            hlfit hm hlhs
          rcases hcause with ⟨x, hx, hunassigned⟩ | hzero
          · exact .inl ⟨x, .inl hx, hunassigned⟩
          · exact .inr hzero
        · have hscopes : m₁.scopes = s := scopes_of_evalExpr hl hm hlhs
          rcases bind_eq_failed_iff.1 hrest with hrhs | ⟨r, m₂, hrhs, hresult⟩
          · have hcause := ih rhs (by simp [Expr.parts]) hfree.2 (fun x hx => hvisible x (.inr hx))
              hrfit hscopes hrhs
            rcases hcause with ⟨x, hx, hunassigned⟩ | hzero
            · exact .inl ⟨x, .inr hx, hunassigned⟩
            · exact .inr hzero
          · -- both operands have values of their types, which the operator accepts
            right
            rw [(evalExpr_ty h hl hm hlhs).1, (evalExpr_ty h hl hscopes hrhs).1] at haccepts
            obtain ⟨happly, -⟩ := ofExcept_eq_failed_iff.1 hresult
            rcases BinOp.apply_of_accepts haccepts with ⟨u, hu, -⟩ | ⟨d, hd⟩
            · rw [hu] at happly
              cases happly
            · rw [hd] at happly
              cases happly
              exact ⟨d, rfl⟩
      | call name args => cases hfree

/-- Declarations determine the types of values, in every live scope of every arena that operations
and evaluation lead to. An expression that gives a value gives one of its type, and every operator
in it accepted its operands. Where every operator accepts its operands, an expression without calls
whose variables are visible never fails for the type of anything. No call gives a truth value. -/
theorem declarations_determine_types (h : m.scopes.Reachable) (hl : m.scopes.Live scope)
    (w : Setting) (n : Nat) :
    (∀ e v m', evalExpr w n scope e m = .done v m' →
      e.ty? w m.scopes scope = some v.ty ∧ e.operandsFit w m.scopes scope) ∧
    (∀ e : Expr, e.callFree → (∀ x ∈ e.vars, m.scopes.isVisible scope x) →
      e.operandsFit w m.scopes scope →
      ∀ why m', evalExpr w n scope e m ≠ .failed (.typeMismatch why) m') ∧
    ∀ name args b m', evalExpr w n scope (.call name args) m ≠ .done (.bool b) m' ∧
      invoke w n scope name args m ≠ .done (.bool b) m' ∧
      invokeEntry w n name m ≠ .done (.bool b) m' := by
  have htyped := h.wellTyped
  refine ⟨fun e v m' hv => evalExpr_ty htyped hl rfl hv, ?_, fun name args b m' => ⟨?_, ?_, ?_⟩⟩
  · intro e hfree hvisible hfit why m' hv
    rcases evalExpr_failure htyped hl hfree hvisible hfit rfl hv with ⟨x, -, hx⟩ | ⟨op, hop⟩
    · cases hx
    · cases hop
  · cases n with
    | zero => exact fun hv => by cases hv
    | succ n =>
      rw [evalExpr_call]
      exact callMethod_ne_bool htyped none name args b
  · exact callMethod_ne_bool htyped none name args b
  · exact callMethod_ne_bool htyped (some Scopes.root) name [] b

/-- A call whose argument is a sum, compared to a constant. -/
def twiceIsLess : Expr :=
  .binary (.call "twice" [.binary (.var "limit") .add (.int 1)]) .lt (.int 9)

/-- A division by zero, whose result would be compared to a truth value. -/
def halfIsTrue : Expr :=
  .binary (.binary (.binary (.var "limit") .div (.int 0)) .lt (.int 3)) .eq (.bool true)

theorem inMain_reachable : inMain.scopes.Reachable := by
  apply Scopes.Reachable.push
  have hlimit : (Scopes.Update.declareAndAssign Scopes.root "limit" (.int 2) .initial).2 =
      Scopes.initial.put Scopes.root "limit" ⟨.int, true, .int 2⟩ := by cbv
  rw [← hlimit]
  exact .declareAndAssign .initial Scopes.root "limit" (.int 2)

theorem declarations_determine_types_in_main :
    inMain.scopes.Reachable ∧ inMain.scopes.Live ⟨1⟩ ∧
    evalExpr Program.doubling.setting 9 ⟨1⟩ twiceIsLess inMain = .done (.bool true) inMain ∧
    twiceIsLess.ty? Program.doubling.setting inMain.scopes ⟨1⟩ = some .bool ∧
    twiceIsLess.operandsFit Program.doubling.setting inMain.scopes ⟨1⟩ ∧
    halfIsTrue.callFree ∧ (∀ x ∈ halfIsTrue.vars, inMain.scopes.isVisible ⟨1⟩ x) ∧
    halfIsTrue.operandsFit Program.doubling.setting inMain.scopes ⟨1⟩ ∧
    (∀ why m', evalExpr Program.doubling.setting 9 ⟨1⟩ halfIsTrue inMain ≠
      .failed (.typeMismatch why) m') ∧
    ∀ m', evalExpr Program.doubling.setting 9 ⟨1⟩ (.call "twice" [.var "limit"]) inMain ≠
      .done (.bool true) m' := by
  have hlive : inMain.scopes.Live ⟨1⟩ := by decide
  have heval : evalExpr Program.doubling.setting 9 ⟨1⟩ twiceIsLess inMain =
      .done (.bool true) inMain := by cbv
  have hvisible : ∀ x ∈ halfIsTrue.vars, inMain.scopes.isVisible ⟨1⟩ x := by
    intro x hx
    obtain rfl : x = "limit" := by simpa [halfIsTrue, Expr.vars, Expr.int, Expr.bool] using hx
    cbv
  have hfit : halfIsTrue.operandsFit Program.doubling.setting inMain.scopes ⟨1⟩ := by cbv
  obtain ⟨htypes, hfits, hcalls⟩ :=
    declarations_determine_types inMain_reachable hlive Program.doubling.setting 9
  obtain ⟨hty, hoperands⟩ := htypes _ _ _ heval
  exact ⟨inMain_reachable, hlive, heval, hty, hoperands, rfl, hvisible, hfit,
    hfits _ rfl hvisible hfit, fun m' => (hcalls _ _ _ m').1⟩

end MethodLang
