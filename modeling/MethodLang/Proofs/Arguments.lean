import Mathlib
import MethodLang.Proofs.Evaluation
import MethodLang.Proofs.Results

/-!
# Calls and their arguments

How a call ends, case by case: which of the errors it may meet comes first, which of the arguments
have been evaluated then, and with what variables the body of the method starts.

* `Scopes.pushSlots` opens a scope that has some variables already, and `evalExpr_withSlots` says
  that evaluation for the caller does not notice such a scope;
* `Evaluates` evaluates arguments one after another where the call stands;
* `CallEnds` gives the cases, and `call_ends_iff` says that a call ends as one of them says.
-/

namespace MethodLang

open Lexical (evalsAs_execsAs)

/-! ### A scope with variables -/

namespace Scopes

/-- Open the next scope, detached, with variables in it. -/
def pushSlots (s : Scopes) (b : Bindings) : Scopes := ⟨s.frames.push ⟨none, b⟩⟩

variable {s : Scopes} {b : Bindings} {name : String}

theorem frame?_pushSlots (s : Scopes) (b : Bindings) (scope : ScopeId) :
    (s.pushSlots b).frame? scope = if scope = s.next then some ⟨none, b⟩ else s.frame? scope := by
  simp [frame?, pushSlots, next, size, Array.getElem?_push, ScopeId.ext_iff]

theorem extends_pushSlots (s : Scopes) (b : Bindings) : s.Extends (s.pushSlots b) :=
  fun id hl => by rw [frame?_pushSlots, if_neg hl.ne_next]

theorem live_next_pushSlots (s : Scopes) (b : Bindings) : (s.pushSlots b).Live s.next := by
  simp [Live, pushSlots, next, size]

theorem resolve_pushSlots (s : Scopes) (b : Bindings) (name : String) :
    (s.pushSlots b).resolve s.next name = (b.find? name).map (s.next, ·) := by
  rw [resolve, frame?_pushSlots, if_pos rfl]
  cases h : b.find? name <;> simp [h]

theorem put_pushSlots (s : Scopes) (b : Bindings) (name : String) (slot : Slot) :
    (s.pushSlots b).put s.next name slot = s.pushSlots (b.insert name slot) := by
  apply ext_frame
  intro id
  rw [frame?_put, frame?_pushSlots, frame?_pushSlots]
  split
  · rfl
  · rfl

theorem release_pushSlots (h : 0 < s.size) (b : Bindings) : (s.pushSlots b).release s.next = s := by
  apply ext_frame
  intro id
  by_cases hl : s.Live id
  · rw [frame?_release_of_live hl, extends_pushSlots s b id hl]
  · rw [frame?_release_of_not_live h hl, frame?_eq_none_iff.2 (Nat.le_of_not_lt hl)]

/-- The scopes below are not visible from the new one. -/
theorem isVisible_pushSlots (s : Scopes) (b : Bindings) (name : String) :
    (s.pushSlots b).isVisible s.next name = (b.find? name).isSome := by
  rw [isVisible, resolve_pushSlots, Option.isSome_map]

theorem declare_pushSlots (s : Scopes) (b : Bindings) (name : String) (ty : Ty) :
    (s.pushSlots b).declare s.next name ty =
      if (b.find? name).isSome then .error (.redeclaration name)
      else .ok (s.pushSlots (b.insert name ⟨ty, false, .untyped⟩)) := by
  rw [declare_eq, isVisible_pushSlots, put_pushSlots]

theorem declareAndAssign_pushSlots (s : Scopes) (b : Bindings) (name : String) (value : Value) :
    (s.pushSlots b).declareAndAssign s.next name value =
      if (b.find? name).isSome then .error (.redeclaration name)
      else .ok (s.pushSlots (b.insert name ⟨value.ty, true, value⟩)) := by
  rw [declareAndAssign_of_lt (live_next_pushSlots s b), isVisible_pushSlots, put_pushSlots]

end Scopes

/-- The machine with a new scope that has some variables. -/
def Machine.withSlots (m : Machine) (b : Bindings) : Machine :=
  { m with scopes := m.scopes.pushSlots b }

/-- Evaluation for the caller does not notice the scope that is open for the method. -/
theorem evalExpr_withSlots {m : Machine} {scope : ScopeId} (h : m.scopes.Live scope) (w : Setting)
    (n : Nat) (e : Expr) (b : Bindings) :
    evalExpr w n scope e (m.withSlots b) =
      (evalExpr w n scope e m).mapState (·.withSlots b) := by
  have hext := Scopes.extends_pushSlots m.scopes b
  have henv : (m.withSlots b).scopes.env scope = m.scopes.env scope := hext.env h
  have hlexical := (evalsAs_execsAs w n).1 scope e
  have hinner := hlexical (m.withSlots b) (hext.live h) (m.withSlots b) m.console rfl
  rw [henv, ← Outcome.mapState_id (Lexical.evalExpr ..)] at hinner
  refine (hlexical m h m m.console rfl).eq_mapState hinner fun _ _ c hm hm' => ?_
  rw [hm, hm']
  rfl

theorem evalExpr_withSlots_of_done {m m' : Machine} {scope : ScopeId} {w : Setting} {n : Nat}
    {e : Expr} {value : Value} (hl : m.scopes.Live scope)
    (h : evalExpr w n scope e m = .done value m') (b : Bindings) :
    evalExpr w n scope e (m.withSlots b) = .done value (m'.withSlots b) := by
  rw [evalExpr_withSlots hl, h, Outcome.mapState]

/-! ### Binding in the new scope -/

section Binding

variable {m m' : Machine}

theorem declareAndAssign_withSlots (hscopes : m'.scopes = m.scopes) (b : Bindings) (name : String)
    (value : Value) :
    Action.update (.declareAndAssign m.scopes.next name value) (m'.withSlots b) =
      if (b.find? name).isSome then .failed (.redeclaration name) (m'.withSlots b)
      else .done () (m'.withSlots (b.insert name ⟨value.ty, true, value⟩)) := by
  rw [← hscopes]
  exact Action.update_of_ite (.declareAndAssign _ name value)
    (Scopes.declareAndAssign_pushSlots m'.scopes b name value)

theorem declare_withSlots (hscopes : m'.scopes = m.scopes) (b : Bindings) (name : String)
    (ty : Ty) :
    Action.update (.declare m.scopes.next name ty) (m'.withSlots b) =
      if (b.find? name).isSome then .failed (.redeclaration name) (m'.withSlots b)
      else .done () (m'.withSlots (b.insert name ⟨ty, false, .untyped⟩)) := by
  rw [← hscopes]
  exact Action.update_of_ite (.declare _ name ty) (Scopes.declare_pushSlots m'.scopes b name ty)

end Binding

/-! ### Parameters -/

namespace Bindings

variable {b : Bindings} {params : List String} {values : List Value} {name : String}

/-- Bind each parameter to its argument, with the type of the argument. -/
def bindAll : Bindings → List String → List Value → Bindings
  | b, param :: params, value :: values =>
    bindAll (b.insert param ⟨value.ty, true, value⟩) params values
  | b, _, _ => b

/-- Only as many parameters are bound as there are arguments. -/
theorem bindAll_take (b : Bindings) (params : List String) (values : List Value) :
    b.bindAll (params.take values.length) values = b.bindAll params values := by
  induction values generalizing b params with
  | nil => cases params <;> rfl
  | cons value values ih =>
    cases params with
    | nil => rfl
    | cons param params => exact ih (b.insert param ⟨value.ty, true, value⟩) params

theorem find?_bindAll_of_not_mem (h : name ∉ params) :
    (b.bindAll params values).find? name = b.find? name := by
  induction params generalizing b values with
  | nil => cases values <;> rfl
  | cons param params ih =>
    rw [List.mem_cons, not_or] at h
    cases values with
    | nil => rfl
    | cons value values => rw [bindAll, ih h.2, find?_insert, if_neg h.1]

/-- Each parameter holds its argument. -/
theorem find?_bindAll {i : Nat} {param : String} {value : Value} (hnodup : params.Nodup)
    (hparam : params[i]? = some param) (hvalue : values[i]? = some value) :
    (b.bindAll params values).find? param = some ⟨value.ty, true, value⟩ := by
  induction params generalizing b values i with
  | nil => cases hparam
  | cons first params ih =>
    rw [List.nodup_cons] at hnodup
    cases values with
    | nil => cases hvalue
    | cons held values =>
      rw [bindAll]
      cases i with
      | zero =>
        cases hparam
        cases hvalue
        rw [find?_bindAll_of_not_mem hnodup.1, find?_insert, if_pos rfl]
      | succ i => exact ih hnodup.2 hparam hvalue

theorem isSome_find?_bindAll (hnodup : params.Nodup) (hlength : values.length = params.length)
    (h : name ∈ params) : ((b.bindAll params values).find? name).isSome := by
  obtain ⟨i, hi, rfl⟩ := List.mem_iff_getElem.1 h
  rw [find?_bindAll hnodup (List.getElem?_eq_getElem hi)
    (List.getElem?_eq_getElem (hlength ▸ hi)), Option.isSome_some]

end Bindings

/-! ### Arguments -/

/-- Arguments are evaluated one after another, each on the machine that the one before left. -/
inductive Evaluates (eval : Expr → Action Machine Value) :
    Machine → List Expr → List Value → Machine → Prop
  | nil (m : Machine) : Evaluates eval m [] [] m
  | cons {m m₁ m₂ : Machine} {arg : Expr} {args : List Expr} {value : Value} {values : List Value}
    (harg : eval arg m = .done value m₁) (hargs : Evaluates eval m₁ args values m₂) :
    Evaluates eval m (arg :: args) (value :: values) m₂

namespace Evaluates

variable {eval : Expr → Action Machine Value} {m m₁ m₂ : Machine} {args : List Expr} {arg : Expr}
  {values : List Value} {value : Value}

theorem length (h : Evaluates eval m args values m₁) : values.length = args.length := by
  induction h with
  | nil => rfl
  | cons _ _ ih => rw [List.length_cons, List.length_cons, ih]

theorem concat (h : Evaluates eval m args values m₁) (harg : eval arg m₁ = .done value m₂) :
    Evaluates eval m (args ++ [arg]) (values ++ [value]) m₂ := by
  induction h with
  | nil => exact .cons harg (.nil _)
  | cons hfirst _ ih => exact .cons hfirst (ih harg)

variable {w : Setting} {n : Nat} {scope : ScopeId}

/-- The arguments change the console alone. -/
theorem unchanged (hl : m.scopes.Live scope) (h : Evaluates (evalExpr w n scope) m args values m₁) :
    m₁.scopes = m.scopes ∧ m₁.calls = m.calls := by
  induction h with
  | nil => exact ⟨rfl, rfl⟩
  | @cons m m' m₂ arg args value values harg _ ih =>
    obtain ⟨hscopes, hcalls⟩ := (evalExpr_leaves hl w n arg).of_done harg
    have hrest := ih (hscopes ▸ hl)
    exact ⟨hrest.1.trans hscopes, hrest.2.trans hcalls⟩

/-- As many parameters as arguments have been evaluated are bound, if they are different. -/
theorem bindArgs_append (hl : m.scopes.Live scope)
    (h : Evaluates (evalExpr w n scope) m args values m₁) {b : Bindings} {params : List String}
    (hlength : params.length = args.length) (hnodup : params.Nodup)
    (hnew : ∀ param ∈ params, b.find? param = none) (miscount : EvalError)
    (later : List String) (rest : List Expr) :
    bindArgs (evalExpr w n scope) m.scopes.next miscount (params ++ later) (args ++ rest)
        (m.withSlots b) =
      bindArgs (evalExpr w n scope) m.scopes.next miscount later rest
        (m₁.withSlots (b.bindAll params values)) := by
  induction h generalizing b params with
  | nil =>
    obtain rfl := List.eq_nil_of_length_eq_zero hlength
    rfl
  | @cons m m' m₂ arg args value values harg _ ih =>
    cases params with
    | nil => cases hlength
    | cons param params =>
      obtain ⟨hscopes, -⟩ := (evalExpr_leaves hl w n arg).of_done harg
      rw [List.nodup_cons] at hnodup
      rw [List.forall_mem_cons] at hnew
      have hnew' : ∀ p ∈ params,
          (b.insert param ⟨value.ty, true, value⟩).find? p = none := by
        intro p hp
        rw [Bindings.find?_insert, if_neg (ne_of_mem_of_not_mem hp hnodup.1), hnew.2 p hp]
      have hbind := ih (hscopes ▸ hl) (Nat.succ.inj hlength) hnodup.2 hnew'
      rw [hscopes] at hbind
      have hdeclare := declareAndAssign_withSlots hscopes b param value
      rw [hnew.1, Option.isSome_none, if_neg Bool.false_ne_true] at hdeclare
      rw [Bindings.bindAll, ← hbind, List.cons_append, List.cons_append, bindArgs,
        Action.bind_of_done (evalExpr_withSlots_of_done hl harg b),
        Action.bind_of_done hdeclare]

end Evaluates

/-! ### The cases -/

/-- The first arguments of a call have been evaluated and bound to parameters of different names. -/
structure Bound (w : Setting) (n : Nat) (scope : ScopeId) (method : Method) (m : Machine)
    (before : List Expr) (values : List Value) (m₁ : Machine) : Prop where
  evaluates : Evaluates (evalExpr w n scope) m before values m₁
  length : before.length ≤ method.params.length
  nodup : (method.params.take before.length).Nodup

/-- The parameters of a method, as far as there are arguments, with these. -/
def Method.boundTo (method : Method) (values : List Value) : Bindings :=
  Bindings.empty.bindAll method.params values

/-- The variables with which the body of a method starts: the parameters, and under the name of the
method the variable for the result. -/
def Method.startSlots (method : Method) (values : List Value) : Bindings :=
  (method.boundTo values).insert method.name ⟨.int, false, .untyped⟩

/-- Run the body of a method in a scope that has its variables, and read the result. -/
def Method.perform (exec : ScopeId → Stmt → Action Machine Signal) (callee : ScopeId)
    (method : Method) : Action Machine Value := do
  let _ ← .inCall method.name (execAll (exec callee) method.body)
  if method.returns = .undefined then pure .untyped
  else .query (·.valueOf callee method.name)

/-- How a call ends whose method is found while calls are left. -/
inductive MethodEnds (w : Setting) (n : Nat) (scope : ScopeId) (method : Method) (args : List Expr)
    (m : Machine) : Outcome Machine Value → Prop
  /-- An argument has no value: it fails, or does not end. -/
  | argument {before after : List Expr} {arg : Expr} {values : List Value} {m₁ : Machine}
    {o : Outcome Machine Value} (hargs : args = before ++ arg :: after)
    (hbound : Bound w n scope method m before values m₁) (harg : evalExpr w n scope arg m₁ = o)
    (hvalue : ∀ value m₂, o ≠ .done value m₂) : MethodEnds w n scope method args m o
  /-- An argument has a value, and its parameter has the name of an earlier one. -/
  | duplicate {before after : List Expr} {arg : Expr} {values : List Value} {value : Value}
    {m₁ m₂ : Machine} {param : String} (hargs : args = before ++ arg :: after)
    (hbound : Bound w n scope method m before values m₁)
    (harg : evalExpr w n scope arg m₁ = .done value m₂)
    (hparam : method.params[before.length]? = some param)
    (hmem : param ∈ method.params.take before.length) :
    MethodEnds w n scope method args m (.failed (.redeclaration param) m₂)
  /-- An argument has a value, and there is no parameter for it. -/
  | surplus {before after : List Expr} {arg : Expr} {values : List Value} {value : Value}
    {m₁ m₂ : Machine} (hargs : args = before ++ arg :: after)
    (hbound : Bound w n scope method m before values m₁)
    (harg : evalExpr w n scope arg m₁ = .done value m₂)
    (hlength : before.length = method.params.length) :
    MethodEnds w n scope method args m
      (.failed (.argumentCount method.name method.params.length args.length) m₂)
  /-- All arguments have values, and there are more parameters. -/
  | shortfall {values : List Value} {m₁ : Machine}
    (hbound : Bound w n scope method m args values m₁)
    (hlength : args.length < method.params.length) :
    MethodEnds w n scope method args m
      (.failed (.argumentCount method.name method.params.length args.length) m₁)
  /-- All parameters are bound, and one has the name of the method. -/
  | ownName {values : List Value} {m₁ : Machine} (hbound : Bound w n scope method m args values m₁)
    (hlength : args.length = method.params.length) (hname : method.name ∈ method.params) :
    MethodEnds w n scope method args m (.failed (.redeclaration method.name) m₁)
  /-- All parameters are bound, and the body runs. -/
  | body {values : List Value} {m₁ : Machine} (hbound : Bound w n scope method m args values m₁)
    (hlength : args.length = method.params.length) (hname : method.name ∉ method.params) :
    MethodEnds w n scope method args m
      ((method.perform (execStmt w n) m.scopes.next
        (m₁.withSlots (method.startSlots values))).mapState fun m' =>
          { m' with scopes := m'.scopes.release m.scopes.next })

/-- How a call ends. -/
inductive CallEnds (w : Setting) (n : Nat) (scope : ScopeId) (name : String) (args : List Expr)
    (m : Machine) : Outcome Machine Value → Prop
  /-- There is no method of the name. -/
  | undeclared (h : w.method? name = none) :
    CallEnds w n scope name args m (.failed (.undeclaredMethod name) m)
  /-- As many calls are active as may be. -/
  | tooDeep {method : Method} (hm : w.method? name = some method)
    (h : w.limit ≤ m.calls.size) :
    CallEnds w n scope name args m (.failed (.callDepthExceeded w.limit) m)
  | inMethod {method : Method} {o : Outcome Machine Value} (hm : w.method? name = some method)
    (h : m.calls.size < w.limit) (hends : MethodEnds w n scope method args m o) :
    CallEnds w n scope name args m o

/-! ### Each case computes -/

variable {w : Setting} {n : Nat} {scope : ScopeId} {method : Method} {m m₁ m₂ : Machine}
  {args before : List Expr} {values : List Value} {o : Outcome Machine Value} {name : String}

theorem Bound.unchanged (h : Bound w n scope method m before values m₁)
    (hl : m.scopes.Live scope) : m₁.scopes = m.scopes :=
  (h.evaluates.unchanged hl).1

theorem Bound.live (h : Bound w n scope method m before values m₁) (hl : m.scopes.Live scope) :
    m₁.scopes.Live scope :=
  (h.unchanged hl).symm ▸ hl

/-- The bindings of the first arguments. -/
theorem Bound.bindArgs_eq (h : Bound w n scope method m before values m₁) (hl : m.scopes.Live scope)
    (miscount : EvalError) (rest : List Expr) :
    bindArgs (evalExpr w n scope) m.scopes.next miscount method.params (before ++ rest)
        (m.withSlots .empty) =
      bindArgs (evalExpr w n scope) m.scopes.next miscount
        (method.params.drop before.length) rest (m₁.withSlots (method.boundTo values)) := by
  have happend := h.evaluates.bindArgs_append hl (List.length_take_of_le h.length) h.nodup
    (fun _ _ => Bindings.find?_empty _) miscount (method.params.drop before.length) rest
  rwa [List.take_append_drop, ← h.evaluates.length, Bindings.bindAll_take,
    h.evaluates.length] at happend

theorem Bound.bindArgs_all (h : Bound w n scope method m args values m₁)
    (hl : m.scopes.Live scope) (hlength : args.length = method.params.length)
    (miscount : EvalError) :
    bindArgs (evalExpr w n scope) m.scopes.next miscount method.params args
        (m.withSlots .empty) =
      .done () (m₁.withSlots (method.boundTo values)) := by
  have hall := h.bindArgs_eq hl miscount []
  rwa [List.append_nil, hlength, List.drop_length] at hall

theorem Bound.isSome_find?_boundTo (h : Bound w n scope method m before values m₁)
    (hname : name ∈ method.params.take before.length) :
    ((method.boundTo values).find? name).isSome := by
  have hlength := h.evaluates.length
  rw [Method.boundTo, ← Bindings.bindAll_take, hlength]
  exact Bindings.isSome_find?_bindAll h.nodup
    (hlength.trans (List.length_take_of_le h.length).symm) hname

/-- What is done in the scope of the method. -/
def Method.enter (w : Setting) (n : Nat) (scope : ScopeId) (method : Method) (args : List Expr)
    (callee : ScopeId) : Action Machine Value := do
  bindArgs (evalExpr w n scope) callee
    (.argumentCount method.name method.params.length args.length) method.params args
  runMethod (execStmt w n) callee method

theorem Method.inScope_enter (w : Setting) (n : Nat) (scope : ScopeId) (method : Method)
    (args : List Expr) (m : Machine) :
    Action.inScope none (method.enter w n scope args) m =
      (method.enter w n scope args m.scopes.next (m.withSlots .empty)).mapState fun m' =>
        { m' with scopes := m'.scopes.release m.scopes.next } := by
  rw [Action.inScope_apply]
  rfl

/-- Leaving the scope of the method restores the arena. -/
theorem Machine.release_withSlots (hl : m.scopes.Live scope) (hscopes : m₁.scopes = m.scopes)
    (b : Bindings) :
    { m₁.withSlots b with scopes := (m₁.withSlots b).scopes.release m.scopes.next } = m₁ := by
  obtain ⟨scopes, calls, console⟩ := m₁
  obtain rfl : scopes = m.scopes := hscopes
  rw [withSlots, Scopes.release_pushSlots hl.size_pos]

/-- A failure in the scope of the method is the failure of the call. -/
theorem Method.inScope_enter_of_failed {cause : EvalError} {b : Bindings}
    (hl : m.scopes.Live scope) (hscopes : m₁.scopes = m.scopes)
    (h : method.enter w n scope args m.scopes.next (m.withSlots .empty) =
      .failed cause (m₁.withSlots b)) :
    Action.inScope none (method.enter w n scope args) m = .failed cause m₁ := by
  rw [inScope_enter, h, Outcome.mapState, Machine.release_withSlots hl hscopes]

/-- After the first arguments, a failure is the failure of the call. -/
theorem Bound.inScope_enter_of_failed {rest : List Expr} {cause : EvalError}
    (h : Bound w n scope method m before values m₁) (hl : m.scopes.Live scope)
    (hargs : args = before ++ rest) (hscopes : m₂.scopes = m₁.scopes)
    (hrest : bindArgs (evalExpr w n scope) m.scopes.next
        (.argumentCount method.name method.params.length args.length)
        (method.params.drop before.length) rest (m₁.withSlots (method.boundTo values)) =
      .failed cause (m₂.withSlots (method.boundTo values))) :
    Action.inScope none (method.enter w n scope args) m = .failed cause m₂ := by
  apply Method.inScope_enter_of_failed hl (hscopes.trans (h.unchanged hl))
  apply Action.bind_of_failed
  rw [← hrest, hargs, h.bindArgs_eq hl]

theorem bindArgs_of_failed {eval : Expr → Action Machine Value} {callee : ScopeId}
    {miscount cause : EvalError} {arg : Expr} {after : List Expr}
    (h : eval arg m = .failed cause m₁) (params : List String) :
    bindArgs eval callee miscount params (arg :: after) m = .failed cause m₁ := by
  cases params with
  | nil => exact Action.bind_of_failed h
  | cons => exact Action.bind_of_failed h

theorem bindArgs_of_unfinished {eval : Expr → Action Machine Value} {callee : ScopeId}
    {miscount : EvalError} {arg : Expr} {after : List Expr} (h : eval arg m = .unfinished)
    (params : List String) :
    bindArgs eval callee miscount params (arg :: after) m = .unfinished := by
  cases params with
  | nil => exact Action.bind_of_unfinished h
  | cons => exact Action.bind_of_unfinished h

theorem Bound.inScope_enter_argument {after : List Expr} {arg : Expr}
    (h : Bound w n scope method m before values m₁) (hl : m.scopes.Live scope)
    (hargs : args = before ++ arg :: after) (harg : evalExpr w n scope arg m₁ = o)
    (hvalue : ∀ value m₂, o ≠ .done value m₂) :
    Action.inScope none (method.enter w n scope args) m = o := by
  have hleaves := evalExpr_leaves (h.live hl) w n arg
  have heval := evalExpr_withSlots (h.live hl) w n arg (method.boundTo values)
  rw [harg] at hleaves heval
  cases o with
  | done value m₂ => exact absurd rfl (hvalue value m₂)
  | failed cause m₂ =>
    exact h.inScope_enter_of_failed hl hargs hleaves.1 (bindArgs_of_failed heval _)
  | unfinished =>
    rw [Method.inScope_enter, Method.enter, Action.bind_of_unfinished, Outcome.mapState]
    rw [hargs, h.bindArgs_eq hl]
    exact bindArgs_of_unfinished heval _

theorem Bound.inScope_enter_duplicate {after : List Expr} {arg : Expr} {value : Value}
    {param : String} (h : Bound w n scope method m before values m₁) (hl : m.scopes.Live scope)
    (hargs : args = before ++ arg :: after) (harg : evalExpr w n scope arg m₁ = .done value m₂)
    (hparam : method.params[before.length]? = some param)
    (hmem : param ∈ method.params.take before.length) :
    Action.inScope none (method.enter w n scope args) m =
      .failed (.redeclaration param) m₂ := by
  have hleaves := (evalExpr_leaves (h.live hl) w n arg).of_done harg
  have hdeclare := declareAndAssign_withSlots (hleaves.1.trans (h.unchanged hl))
    (method.boundTo values) param value
  rw [if_pos (h.isSome_find?_boundTo hmem)] at hdeclare
  refine h.inScope_enter_of_failed hl hargs hleaves.1 ?_
  obtain ⟨hlt, rfl⟩ := List.getElem?_eq_some_iff.1 hparam
  rw [List.drop_eq_getElem_cons hlt, bindArgs,
    Action.bind_of_done (evalExpr_withSlots_of_done (h.live hl) harg _)]
  exact Action.bind_of_failed hdeclare

theorem Bound.inScope_enter_surplus {after : List Expr} {arg : Expr} {value : Value}
    (h : Bound w n scope method m before values m₁) (hl : m.scopes.Live scope)
    (hargs : args = before ++ arg :: after) (harg : evalExpr w n scope arg m₁ = .done value m₂)
    (hlength : before.length = method.params.length) :
    Action.inScope none (method.enter w n scope args) m =
      .failed (.argumentCount method.name method.params.length args.length) m₂ := by
  have hleaves := (evalExpr_leaves (h.live hl) w n arg).of_done harg
  refine h.inScope_enter_of_failed hl hargs hleaves.1 ?_
  rw [hlength, List.drop_length]
  exact Action.bind_of_done (evalExpr_withSlots_of_done (h.live hl) harg _)

theorem Bound.inScope_enter_shortfall (h : Bound w n scope method m args values m₁)
    (hl : m.scopes.Live scope) (hlength : args.length < method.params.length) :
    Action.inScope none (method.enter w n scope args) m =
      .failed (.argumentCount method.name method.params.length args.length) m₁ := by
  refine h.inScope_enter_of_failed hl (List.append_nil args).symm rfl ?_
  rw [List.drop_eq_getElem_cons hlength]
  rfl

theorem Bound.inScope_enter_ownName (h : Bound w n scope method m args values m₁)
    (hl : m.scopes.Live scope) (hlength : args.length = method.params.length)
    (hname : method.name ∈ method.params) :
    Action.inScope none (method.enter w n scope args) m =
      .failed (.redeclaration method.name) m₁ := by
  have hbound : ((method.boundTo values).find? method.name).isSome := by
    apply h.isSome_find?_boundTo
    rwa [hlength, List.take_length]
  have hdeclare := declare_withSlots (h.unchanged hl) (method.boundTo values) method.name .int
  rw [if_pos hbound] at hdeclare
  apply Method.inScope_enter_of_failed hl (h.unchanged hl)
  rw [Method.enter, Action.bind_of_done (h.bindArgs_all hl hlength _)]
  exact Action.bind_of_failed hdeclare

theorem Bound.inScope_enter_body (h : Bound w n scope method m args values m₁)
    (hl : m.scopes.Live scope) (hlength : args.length = method.params.length)
    (hname : method.name ∉ method.params) :
    Action.inScope none (method.enter w n scope args) m =
      (method.perform (execStmt w n) m.scopes.next
        (m₁.withSlots (method.startSlots values))).mapState fun m' =>
          { m' with scopes := m'.scopes.release m.scopes.next } := by
  have hnew : (method.boundTo values).find? method.name = none :=
    (Bindings.find?_bindAll_of_not_mem hname).trans (Bindings.find?_empty _)
  have hdeclare := declare_withSlots (h.unchanged hl) (method.boundTo values) method.name .int
  rw [hnew, Option.isSome_none, if_neg Bool.false_ne_true] at hdeclare
  rw [Method.inScope_enter, Method.enter, Action.bind_of_done (h.bindArgs_all hl hlength _)]
  exact congrArg _ (Action.bind_of_done hdeclare)

theorem MethodEnds.inScope_enter (hl : m.scopes.Live scope)
    (h : MethodEnds w n scope method args m o) :
    Action.inScope none (method.enter w n scope args) m = o := by
  cases h with
  | argument hargs hbound harg hvalue =>
    exact hbound.inScope_enter_argument hl hargs harg hvalue
  | duplicate hargs hbound harg hparam hmem =>
    exact hbound.inScope_enter_duplicate hl hargs harg hparam hmem
  | surplus hargs hbound harg hlength => exact hbound.inScope_enter_surplus hl hargs harg hlength
  | shortfall hbound hlength => exact hbound.inScope_enter_shortfall hl hlength
  | ownName hbound hlength hname => exact hbound.inScope_enter_ownName hl hlength hname
  | body hbound hlength hname => exact hbound.inScope_enter_body hl hlength hname

theorem CallEnds.invoke_eq (hl : m.scopes.Live scope) (h : CallEnds w n scope name args m o) :
    invoke w n scope name args m = o := by
  cases h with
  | undeclared hm =>
    rw [invoke, callMethod, hm]
    rfl
  | tooDeep hm hlimit =>
    rw [invoke, callMethod, hm]
    simp only [Action.depth_bind_apply, if_pos hlimit]
    rfl
  | @inMethod method _ hm hlimit hends =>
    obtain rfl : method.name = name := by
      simpa using List.find?_some hm
    rw [← hends.inScope_enter hl, invoke, callMethod, hm]
    simp only [Action.depth_bind_apply, if_neg (Nat.not_le_of_lt hlimit)]
    rfl

/-! ### Some case applies -/

theorem Bound.nil (w : Setting) (n : Nat) (scope : ScopeId) (method : Method) (m : Machine) :
    Bound w n scope method m [] [] m :=
  ⟨.nil m, Nat.zero_le _, List.nodup_nil⟩

/-- One more argument has a value, and its parameter has another name than those before. -/
theorem Bound.concat {arg : Expr} {value : Value} (h : Bound w n scope method m before values m₁)
    (harg : evalExpr w n scope arg m₁ = .done value m₂)
    (hlt : before.length < method.params.length)
    (hnew : method.params[before.length] ∉ method.params.take before.length) :
    Bound w n scope method m (before ++ [arg]) (values ++ [value]) m₂ where
  evaluates := h.evaluates.concat harg
  length := by
    rw [List.length_append, List.length_singleton]
    exact hlt
  nodup := by
    rw [List.length_append, List.length_singleton, List.take_succ_eq_append_getElem hlt]
    exact h.nodup.append (List.nodup_singleton _) (List.disjoint_singleton.2 hnew)

/-- The arguments that are left are evaluated and bound one after another, until one of the cases
applies. -/
theorem exists_methodEnds {rest : List Expr} (h : Bound w n scope method m before values m₁)
    (hargs : args = before ++ rest) : ∃ o, MethodEnds w n scope method args m o := by
  induction rest generalizing before values m₁ with
  | nil =>
    -- no argument is left, so that the parameters decide
    rw [List.append_nil] at hargs
    subst hargs
    by_cases hlength : args.length = method.params.length
    · by_cases hname : method.name ∈ method.params
      · exact ⟨_, .ownName h hlength hname⟩
      · exact ⟨_, .body h hlength hname⟩
    · exact ⟨_, .shortfall h (Nat.lt_of_le_of_ne h.length hlength)⟩
  | cons arg after ih =>
    cases harg : evalExpr w n scope arg m₁ with
    | done value m₂ =>
      by_cases hlength : before.length = method.params.length
      · exact ⟨_, .surplus hargs h harg hlength⟩
      · have hlt := Nat.lt_of_le_of_ne h.length hlength
        by_cases hmem : method.params[before.length] ∈ method.params.take before.length
        · exact ⟨_, .duplicate hargs h harg (List.getElem?_eq_getElem hlt) hmem⟩
        · apply ih (h.concat harg hlt hmem)
          rw [hargs, List.append_assoc, List.singleton_append]
    | failed cause m₂ => exact ⟨_, .argument hargs h harg (by simp)⟩
    | unfinished => exact ⟨_, .argument hargs h harg (by simp)⟩

theorem exists_callEnds (w : Setting) (n : Nat) (scope : ScopeId) (name : String)
    (args : List Expr) (m : Machine) : ∃ o, CallEnds w n scope name args m o := by
  cases hm : w.method? name with
  | none => exact ⟨_, .undeclared hm⟩
  | some method =>
    by_cases hlimit : w.limit ≤ m.calls.size
    · exact ⟨_, .tooDeep hm hlimit⟩
    · obtain ⟨o, hends⟩ := exists_methodEnds (Bound.nil w n scope method m) rfl
      exact ⟨o, .inMethod hm (Nat.lt_of_not_le hlimit) hends⟩

theorem invoke_eq_iff (hl : m.scopes.Live scope) :
    invoke w n scope name args m = o ↔ CallEnds w n scope name args m o := by
  constructor
  · rintro rfl
    obtain ⟨o, hends⟩ := exists_callEnds w n scope name args m
    rwa [hends.invoke_eq hl]
  · exact fun hends => hends.invoke_eq hl

/-! ### What calls do with arguments -/

/-- No argument is evaluated that comes after one without a parameter. -/
theorem bindArgs_congr_take (eval : Expr → Action Machine Value) (callee : ScopeId)
    (miscount : EvalError) {params : List String} {args args' : List Expr}
    (h : args'.take (params.length + 1) = args.take (params.length + 1)) :
    bindArgs eval callee miscount params args' = bindArgs eval callee miscount params args := by
  induction params generalizing args args' with
  | nil =>
    cases args with
    | nil =>
      obtain rfl : args' = [] := by simpa using h
      rfl
    | cons arg args =>
      cases args' with
      | nil => cases h
      | cons arg' args' =>
        obtain rfl : arg' = arg := by simpa using h
        rfl
  | cons param params ih =>
    cases args with
    | nil =>
      obtain rfl : args' = [] := by simpa using h
      rfl
    | cons arg args =>
      cases args' with
      | nil => cases h
      | cons arg' args' =>
        obtain ⟨rfl, hrest⟩ := List.cons.inj h
        simp only [bindArgs, ih hrest]

theorem Method.find?_startSlots {i : Nat} {param : String} {value : Value}
    (hnodup : method.params.Nodup) (hname : method.name ∉ method.params)
    (hparam : method.params[i]? = some param) (hvalue : values[i]? = some value) :
    (method.startSlots values).find? param = some ⟨value.ty, true, value⟩ := by
  have hne : param ≠ method.name := ne_of_mem_of_not_mem (List.mem_of_getElem? hparam) hname
  rw [startSlots, Bindings.find?_insert, if_neg hne]
  exact Bindings.find?_bindAll hnodup hparam hvalue

theorem Method.find?_startSlots_of_not_mem (h : name ∉ method.params) (values : List Value) :
    (method.startSlots values).find? name =
      if name = method.name then some ⟨.int, false, .untyped⟩ else none := by
  rw [startSlots, Bindings.find?_insert, boundTo, Bindings.find?_bindAll_of_not_mem h,
    Bindings.find?_empty]

/-- A call in a live scope ends as one of the cases of `CallEnds` says, and in no other way; so does
a call in an expression. In the case in which the body runs, it starts with exactly the arguments,
each with its own type, under the names of the parameters, and the variable for the result. What
stands behind the first argument that has no parameter makes no difference but for its number. -/
theorem call_ends_iff (w : Setting) (n : Nat) (scope : ScopeId) (name : String) (args : List Expr)
    (m : Machine) (hl : m.scopes.Live scope) :
    (∀ o, invoke w n scope name args m = o ↔ CallEnds w n scope name args m o) ∧
    (∀ o, evalExpr w (n + 1) scope (.call name args) m = o ↔ CallEnds w n scope name args m o) ∧
    (∀ (method : Method) (values : List Value), method.params.Nodup →
      method.name ∉ method.params →
      (∀ (i : Nat) (param : String) (value : Value), method.params[i]? = some param →
        values[i]? = some value →
        (method.startSlots values).find? param = some ⟨value.ty, true, value⟩) ∧
      ∀ x ∉ method.params, (method.startSlots values).find? x =
        if x = method.name then some ⟨.int, false, .untyped⟩ else none) ∧
    ∀ (method : Method) (args' : List Expr), w.method? name = some method →
      args'.length = args.length →
      args'.take (method.params.length + 1) = args.take (method.params.length + 1) →
      invoke w n scope name args' m = invoke w n scope name args m := by
  refine ⟨fun o => invoke_eq_iff hl, fun o => ?_, fun method values hnodup hname => ?_, ?_⟩
  · rw [evalExpr_call]
    exact invoke_eq_iff hl
  · constructor
    · exact fun i param value hparam hvalue => Method.find?_startSlots hnodup hname hparam hvalue
    · exact fun x hx => Method.find?_startSlots_of_not_mem hx values
  · intro method args' hm hlength htake
    simp only [invoke, callMethod, hm, hlength, bindArgs_congr_take _ _ _ htake]

/-- A method with two parameters. -/
def pair : Method :=
  .ofDecl ⟨"pair", some ⟨"int"⟩, ["a", "b"], [
    .assign "pair" (.binary (.var "a") .add (.var "b"))]⟩

/-- The methods of `doubling` and `pair`. -/
def pairing : Setting := ⟨pair :: Program.doubling.methods, 3⟩

/-- The fourth argument would fail. -/
theorem call_ends_iff_pair :
    inMain.scopes.Live ⟨1⟩ ∧
    CallEnds pairing 9 ⟨1⟩ "pair" [.var "limit", .call "twice" [.int 4]] inMain
      (.done (.int 10) inMain) ∧
    CallEnds pairing 9 ⟨1⟩ "pair" [.var "limit", .int 4, .int 1, .var "missing"] inMain
      (.failed (.argumentCount "pair" 2 4) inMain) ∧
    evalExpr pairing 10 ⟨1⟩ (.call "pair" [.var "limit", .int 4, .int 1, .var "missing"]) inMain =
      .failed (.argumentCount "pair" 2 4) inMain ∧
    (pair.startSlots [.int 2, .int 8]).find? "b" = some ⟨.int, true, .int 8⟩ ∧
    (pair.startSlots [.int 2, .int 8]).find? "limit" = none ∧
    invoke pairing 9 ⟨1⟩ "pair" [.var "limit", .int 4, .int 1, .var "missing"] inMain =
      invoke pairing 9 ⟨1⟩ "pair" [.var "limit", .int 4, .int 1, .int 5] inMain := by
  have hlive : inMain.scopes.Live ⟨1⟩ := by decide
  have htwo : invoke pairing 9 ⟨1⟩ "pair" [.var "limit", .call "twice" [.int 4]] inMain =
      .done (.int 10) inMain := by cbv
  have hfour : invoke pairing 9 ⟨1⟩ "pair" [.var "limit", .int 4, .int 1, .var "missing"] inMain =
      .failed (.argumentCount "pair" 2 4) inMain := by cbv
  have hpair := call_ends_iff pairing 9 ⟨1⟩ "pair" [.var "limit", .call "twice" [.int 4]] inMain
    hlive
  obtain ⟨hends, hexpr, -, -⟩ :=
    call_ends_iff pairing 9 ⟨1⟩ "pair" [.var "limit", .int 4, .int 1, .var "missing"] inMain hlive
  obtain ⟨-, -, hslots, htake⟩ :=
    call_ends_iff pairing 9 ⟨1⟩ "pair" [.var "limit", .int 4, .int 1, .int 5] inMain hlive
  have hheld := hslots pair [.int 2, .int 8] (by decide) (by decide)
  refine ⟨hlive, (hpair.1 _).1 htwo, (hends _).1 hfour, (hexpr _).2 ((hends _).1 hfour), ?_, ?_, ?_⟩
  · exact hheld.1 1 "b" (.int 8) rfl rfl
  · exact hheld.2 "limit" (by decide)
  · exact htake pair _ rfl rfl rfl

end MethodLang
