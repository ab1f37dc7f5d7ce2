import Mathlib
import MethodLang.Proofs.Callees
import MethodLang.Proofs.Lexical.Runs
import MethodLang.Proofs.Operators
import MethodLang.Proofs.Results

/-!
# Reports of errors

What the report of an error says is so: a method that is not found is missing, and something calls
it; a wrong number of arguments is that of a method that takes another number; the limit on active
calls is the one that was set; a zero divisor stands at a division; types that do not match do not
match.

* `EvalError.Truthful` says what each report claims;
* `Action.FailsOnly` carries it through sequencing, lists and calls;
* `evalExpr_execStmt_failsOnly` says it of all that can be evaluated;
* `error_reports_are_truthful` says it of runs and of evaluation in a program.
-/

namespace MethodLang

open MethodLang.Action (bind_eq_failed_iff ofExcept_eq_failed_iff query_eq_failed_iff)

/-- What the report of an error says is so. Only the methods that are `called` can be missed. That
there is no entry method is not for evaluation to report. -/
def EvalError.Truthful (w : Setting) (called : String → Prop) : EvalError → Prop
  | .undeclaredMethod name => w.method? name = none ∧ called name
  | .argumentCount name expected found =>
    (∃ m, w.method? name = some m ∧ m.params.length = expected) ∧ found ≠ expected
  | .callDepthExceeded limit => limit = w.limit
  | .divisionByZero op => op = .div ∨ op = .mod
  | .typeMismatch (.assignment _ expected found) => expected ≠ found
  | .typeMismatch (.condition _ found) => found ≠ .bool
  | .typeMismatch (.operands op lhs rhs) => op.opClass.accepts lhs rhs = false
  | .missingEntryPoint => False
  | .typeMismatch .unprintable | .redeclaration _ | .undeclaredVariable _
  | .uninitializedVariable _ | .console _ => True

/-- The report of a wrong number of arguments, with the word that says which way it is wrong. -/
def argumentCountReport (name which : String) (expected found : Nat) : String :=
  s!"`{name}`: too {which} arguments (expected {expected}, got {found})"

theorem EvalError.message_argumentCount (name : String) (expected found : Nat) :
    (argumentCount name expected found).message =
      argumentCountReport name (if expected < found then "many" else "few") expected found :=
  rfl

/-- A wrong number of arguments is reported as too many or as too few, as it is. -/
theorem EvalError.message_of_miscount {expected found : Nat} (h : found ≠ expected)
    (name : String) :
    (expected < found ∧ (argumentCount name expected found).message =
      argumentCountReport name "many" expected found) ∨
    (found < expected ∧ (argumentCount name expected found).message =
      argumentCountReport name "few" expected found) := by
  rw [message_argumentCount]
  rcases Nat.lt_or_gt_of_ne h with hfew | hmany
  · right
    exact ⟨hfew, by rw [if_neg (Nat.lt_asymm hfew)]⟩
  · left
    exact ⟨hmany, by rw [if_pos hmany]⟩

open MethodLang.EvalError (Truthful)

/-! ### What the single steps report -/

variable {w : Setting} {called : String → Prop} {cause : EvalError}

theorem BinOp.truthful_of_apply {op : BinOp} {l r : Value} (h : op.apply l r = .error cause) :
    cause.Truthful w called := by
  by_cases haccepts : op.opClass.accepts l.ty r.ty
  · cases op with
    | add | sub | mul | lt | gt | le | ge =>
      simp only [opClass, OpClass.accepts, Bool.and_eq_true, beq_iff_eq] at haccepts
      obtain ⟨a, rfl⟩ := Value.exists_int_of_ty haccepts.1
      obtain ⟨b, rfl⟩ := Value.exists_int_of_ty haccepts.2
      cases h
    | div | mod =>
      simp only [opClass, OpClass.accepts, Bool.and_eq_true, beq_iff_eq] at haccepts
      obtain ⟨a, rfl⟩ := Value.exists_int_of_ty haccepts.1
      obtain ⟨b, rfl⟩ := Value.exists_int_of_ty haccepts.2
      simp only [apply] at h
      split at h
      · cases h
        simp [EvalError.Truthful]
      · cases h
    | and | or =>
      simp only [opClass, OpClass.accepts, Bool.and_eq_true, beq_iff_eq] at haccepts
      obtain ⟨a, rfl⟩ := Value.exists_bool_of_ty haccepts.1
      obtain ⟨b, rfl⟩ := Value.exists_bool_of_ty haccepts.2
      cases h
    | eq | ne =>
      simp only [opClass, OpClass.accepts, beq_iff_eq] at haccepts
      simp only [apply, if_pos haccepts] at h
      cases h
  · rw [apply_of_not_accepts haccepts] at h
    cases h
    simpa [EvalError.Truthful] using haccepts

theorem Value.truthful_of_truth {construct : Conditional} {v : Value}
    (h : v.truth construct = .error cause) : cause.Truthful w called := by
  cases v with
  | bool b => cases h
  | untyped | int =>
    cases h
    simp [EvalError.Truthful, ty]

namespace Scopes

variable {s : Scopes} {scope : ScopeId} {name : String} {ty : Ty} {value : Value}

theorem truthful_of_declare (h : s.declare scope name ty = .error cause) :
    cause.Truthful w called := by
  rw [declare_eq] at h
  split at h
  · cases h
    trivial
  · cases h

theorem truthful_of_assign (h : s.assign scope name value = .error cause) :
    cause.Truthful w called := by
  rw [assign_eq] at h
  split at h
  · cases h
    trivial
  · next holder slot _ =>
    split at h
    · cases h
    · next hty =>
      cases h
      simpa [EvalError.Truthful] using hty

theorem truthful_of_lookup {scope : ScopeId} (h : s.lookup scope name = .error cause) :
    cause.Truthful w called := by
  rw [lookup, slot] at h
  cases hr : s.resolve scope name with
  | none =>
    simp only [hr, Except.map] at h
    cases h
    trivial
  | some found =>
    simp only [hr, Except.map] at h
    cases h

theorem truthful_of_valueOf (h : s.valueOf scope name = .error cause) :
    cause.Truthful w called := by
  rw [valueOf] at h
  split at h
  · cases h
    trivial
  · split at h
    · cases h
    · cases h
      trivial

end Scopes

/-! ### Actions -/

/-- Whenever an action fails, the cause is one of these. -/
def Action.FailsOnly {σ α : Type} (T : EvalError → Prop) (x : Action σ α) : Prop :=
  ∀ ⦃s cause s'⦄, x s = .failed cause s' → T cause

namespace Action.FailsOnly

variable {σ α β : Type} {T : EvalError → Prop}

protected theorem pure (a : α) : FailsOnly T (Pure.pure a : Action σ α) := by
  intro s cause s' h
  cases h

theorem unfinished : FailsOnly T (.unfinished : Action σ α) := by
  intro s cause s' h
  cases h

theorem fail (h : T cause) : FailsOnly T (.fail cause : Action σ α) := by
  intro s _ s' hfail
  cases hfail
  exact h

protected theorem bind {x : Action σ α} {f : α → Action σ β} (h : x.FailsOnly T)
    (hf : ∀ a, (f a).FailsOnly T) : (x >>= f).FailsOnly T := by
  intro s cause s' hfail
  rcases bind_eq_failed_iff.1 hfail with hx | ⟨a, t, -, hfa⟩
  · exact h hx
  · exact hf a hfa

theorem ofExcept {r : Except EvalError α} (h : ∀ cause, r = .error cause → T cause) :
    FailsOnly T (.ofExcept r : Action σ α) := by
  intro s cause s' hfail
  exact h cause (ofExcept_eq_failed_iff.1 hfail).1

theorem query {f : Scopes → Except EvalError α} (h : ∀ s cause, f s = .error cause → T cause) :
    FailsOnly T (.query f) := by
  intro m cause m' hfail
  exact h m.scopes cause (query_eq_failed_iff.1 hfail).1

theorem update {u : Scopes.Update} (hu : u.Atomic)
    (h : ∀ s cause, u.result s = .error cause → T cause) : FailsOnly T (.update u) := by
  intro m cause m' hfail
  cases hresult : u.result m.scopes with
  | ok scopes =>
    rw [update_of_ok hresult] at hfail
    cases hfail
  | error e =>
    rw [update_of_error hu hresult] at hfail
    cases hfail
    exact h m.scopes _ hresult

theorem declare (scope : ScopeId) (name : String) (ty : Ty) :
    FailsOnly (Truthful w called) (.update (.declare scope name ty)) :=
  update (.declare scope name ty) fun _ _ => Scopes.truthful_of_declare

theorem assign (scope : ScopeId) (name : String) (value : Value) :
    FailsOnly (Truthful w called) (.update (.assign scope name value)) :=
  update (.assign scope name value) fun _ _ => Scopes.truthful_of_assign

theorem declareAndAssign (scope : ScopeId) (name : String) (value : Value) :
    FailsOnly (Truthful w called) (.update (.declareAndAssign scope name value)) := by
  rw [update_declareAndAssign]
  exact (declare scope name value.ty).bind fun _ => assign scope name value

theorem onConsole {f : Console → Except ConsoleError α × Console}
    (h : ∀ why, T (.console why)) : FailsOnly T (.onConsole f) := by
  intro m cause m' hfail
  simp only [Action.onConsole] at hfail
  split at hfail
  · cases hfail
  · cases hfail
    exact h _

theorem depth : FailsOnly T Action.depth := by
  intro m cause m' hfail
  cases hfail

theorem innermost : FailsOnly T Action.innermost := by
  intro m cause m' hfail
  cases hfail

theorem inScope {f : ScopeId → Action Machine α} (parent : Option ScopeId)
    (h : ∀ scope, (f scope).FailsOnly T) : (Action.inScope parent f).FailsOnly T := by
  intro m cause m' hfail
  rw [inScope_apply, Outcome.mapState_eq_failed_iff] at hfail
  obtain ⟨m'', hbody, -⟩ := hfail
  exact h _ hbody

theorem inCall {x : Action Machine α} (name : String) (h : x.FailsOnly T) :
    (Action.inCall name x).FailsOnly T := by
  intro m cause m' hfail
  rw [inCall_apply, Outcome.mapState_eq_failed_iff] at hfail
  obtain ⟨m'', hbody, -⟩ := hfail
  exact h hbody

/-! ### Lists inside statements and calls -/

theorem execAll {exec : Stmt → Action σ Signal} {body : List Stmt}
    (h : ∀ st ∈ body, (exec st).FailsOnly T) : (execAll exec body).FailsOnly T := by
  induction body with
  | nil => exact .pure _
  | cons st rest ih =>
    rw [List.forall_mem_cons] at h
    apply h.1.bind
    intro signal
    cases signal with
    | normal => exact ih h.2
    | brk | ret => exact .pure _

theorem execOption {exec : Stmt → Action σ Signal} {no : Option Stmt}
    (h : ∀ st ∈ no, (exec st).FailsOnly T) : (execOption exec no).FailsOnly T := by
  cases no with
  | none => exact .pure _
  | some st => exact h st rfl

variable {eval : Expr → Action Machine Value}

/-- Binding arguments finds a wrong number only where the number is wrong. -/
theorem bindArgs {callee : ScopeId} {miscount : EvalError} {params : List String}
    {args : List Expr} (heval : ∀ arg ∈ args, (eval arg).FailsOnly (Truthful w called))
    (hmiscount : args.length ≠ params.length → miscount.Truthful w called) :
    (bindArgs eval callee miscount params args).FailsOnly (Truthful w called) := by
  induction args generalizing params with
  | nil =>
    cases params with
    | nil => exact .pure _
    | cons param params => exact .fail (hmiscount (by simp))
  | cons arg args ih =>
    rw [List.forall_mem_cons] at heval
    cases params with
    | nil => exact heval.1.bind fun _ => .fail (hmiscount (by simp))
    | cons param params =>
      refine heval.1.bind fun value => ?_
      refine .bind (.declareAndAssign callee param value) fun _ => ?_
      exact ih heval.2 (by simpa using hmiscount)

theorem writeAll {items : List WriteItem}
    (heval : ∀ e ∈ (Stmt.write items).exprs, (eval e).FailsOnly (Truthful w called)) :
    (writeAll eval items).FailsOnly (Truthful w called) := by
  induction items with
  | nil => exact .pure _
  | cons item rest ih =>
    cases item with
    | text content =>
      refine .bind (.onConsole fun _ => trivial) fun _ => ?_
      exact ih heval
    | expr value =>
      simp only [Stmt.exprs, List.filterMap_cons, List.forall_mem_cons] at heval
      apply heval.1.bind
      intro v
      cases v.render? with
      | none => exact .fail trivial
      | some content =>
        refine .bind (.onConsole fun _ => trivial) fun _ => ?_
        exact ih heval.2

theorem readAll (scope : ScopeId) (targets : List String) :
    (readAll scope targets).FailsOnly (Truthful w called) := by
  induction targets with
  | nil => exact .pure _
  | cons target rest ih =>
    refine .bind (.onConsole fun _ => trivial) fun n => ?_
    exact .bind (.assign scope target (.int n)) fun _ => ih

theorem findResult (scope : ScopeId) : (findResult scope).FailsOnly (Truthful w called) := by
  refine .bind .innermost fun name => ?_
  cases name with
  | none => exact .pure _
  | some name => exact .bind (.query fun s cause => Scopes.truthful_of_lookup) fun _ => .pure _

/-! ### Calls -/

variable {exec : ScopeId → Stmt → Action Machine Signal}

theorem runMethod {callee : ScopeId} {m : Method}
    (hbody : ∀ st ∈ m.body, (exec callee st).FailsOnly (Truthful w called)) :
    (runMethod exec callee m).FailsOnly (Truthful w called) := by
  refine .bind (.declare callee m.name .int) fun _ => ?_
  refine .bind (.inCall m.name (.execAll hbody)) fun _ => ?_
  split
  · exact .pure _
  · exact .query fun s cause => Scopes.truthful_of_valueOf

/-- A call reports its own name, its own number of arguments and the limit that was set. -/
theorem callMethod {parent : Option ScopeId} {name : String} {args : List Expr}
    (hname : called name) (heval : ∀ arg ∈ args, (eval arg).FailsOnly (Truthful w called))
    (hbody : ∀ m ∈ w.methods, ∀ callee, ∀ st ∈ m.body,
      (exec callee st).FailsOnly (Truthful w called)) :
    (callMethod w eval exec parent name args).FailsOnly (Truthful w called) := by
  rw [MethodLang.callMethod]
  cases hm : w.method? name with
  | none => exact .fail ⟨hm, hname⟩
  | some m =>
    refine .bind .depth fun depth => ?_
    split
    · exact .fail rfl
    · refine .inScope parent fun callee => ?_
      refine .bind (.bindArgs heval fun hlength => ⟨⟨m, hm, rfl⟩, hlength⟩) fun _ => ?_
      exact .runMethod (hbody m (List.mem_of_find?_eq_some hm) callee)

end Action.FailsOnly

/-! ### Expressions and statements -/

open MethodLang.Action (FailsOnly)

/-- Whatever is evaluated reports truthfully, if its calls and those of all methods are among the
ones that count as called. -/
theorem evalExpr_execStmt_failsOnly
    (hw : ∀ m ∈ w.methods, ∀ st ∈ m.body, ∀ name ∈ st.callees, called name) (n : Nat) :
    (∀ scope e, (∀ name ∈ e.callees, called name) →
      (evalExpr w n scope e).FailsOnly (Truthful w called)) ∧
    ∀ scope st, (∀ name ∈ st.callees, called name) →
      (execStmt w n scope st).FailsOnly (Truthful w called) := by
  induction n with
  | zero => exact ⟨fun _ _ _ => .unfinished, fun _ _ _ => .unfinished⟩
  | succ n ih =>
    obtain ⟨heval, hexec⟩ := ih
    constructor
    · intro scope e hcalled
      have hparts : ∀ part ∈ e.parts, (evalExpr w n scope part).FailsOnly (Truthful w called) :=
        fun part hpart => heval scope part fun name hname =>
          hcalled name (Expr.mem_callees_of_mem_parts hpart hname)
      cases e with
      | lit l => exact .pure _
      | var name => exact .query fun s cause => Scopes.truthful_of_valueOf
      | binary lhs op rhs =>
        rw [evalExpr]
        apply (hparts lhs (by simp [Expr.parts])).bind
        intro l
        apply (hparts rhs (by simp [Expr.parts])).bind
        intro r
        exact .ofExcept fun cause => BinOp.truthful_of_apply
      | call name args =>
        rw [evalExpr]
        refine .callMethod (hcalled name (by simp [Expr.callees])) hparts ?_
        intro m hm callee st hst
        exact hexec callee st (hw m hm st hst)
    · intro scope st hcalled
      have hexprs : ∀ e ∈ st.exprs, (evalExpr w n scope e).FailsOnly (Truthful w called) :=
        fun e he => heval scope e fun name hname =>
          hcalled name (Stmt.mem_callees_of_mem_exprs he hname)
      have hparts : ∀ part ∈ st.parts, ∀ scope,
          (execStmt w n scope part).FailsOnly (Truthful w called) :=
        fun part hpart scope => hexec scope part fun name hname =>
          hcalled name (Stmt.mem_callees_of_mem_parts hpart hname)
      cases st with
      | declare name ty =>
        rw [execStmt]
        exact .bind (.declare scope name _) fun _ => .pure _
      | assign name value =>
        rw [execStmt]
        apply (hexprs value (by simp [Stmt.exprs])).bind
        intro v
        exact .bind (.assign scope name v) fun _ => .pure _
      | block body =>
        rw [execStmt]
        exact .inScope _ fun inner => .execAll fun part hpart => hparts part hpart inner
      | seq body =>
        rw [execStmt]
        exact .execAll fun part hpart => hparts part hpart scope
      | ite cond yes no =>
        rw [execStmt]
        apply (hexprs cond (by simp [Stmt.exprs])).bind
        intro v
        refine .bind (.ofExcept fun cause => Value.truthful_of_truth) fun truth => ?_
        cases truth with
        | true => exact hparts yes (by simp [Stmt.parts]) scope
        | false =>
          apply FailsOnly.execOption
          intro part hpart
          exact hparts part (by simpa [Stmt.parts] using .inr hpart) scope
      | doWhile cond body =>
        rw [execStmt]
        apply (hparts body (by simp [Stmt.parts]) scope).bind
        intro signal
        cases signal with
        | brk | ret => exact .pure _
        | normal =>
          apply (hexprs cond (by simp [Stmt.exprs])).bind
          intro v
          refine .bind (.ofExcept fun cause => Value.truthful_of_truth) fun truth => ?_
          cases truth with
          | true => exact hexec scope _ hcalled
          | false => exact .pure _
      | brk => exact .pure _
      | ret =>
        rw [execStmt]
        exact (FailsOnly.findResult scope).bind fun _ => .pure _
      | read targets =>
        rw [execStmt]
        exact (FailsOnly.readAll scope targets).bind fun _ => .pure _
      | write items =>
        rw [execStmt]
        apply (FailsOnly.writeAll hexprs).bind
        intro _
        exact .bind (.onConsole fun _ => trivial) fun _ => .pure _
      | invoke value =>
        rw [execStmt]
        exact (hexprs value (by simp [Stmt.exprs])).bind fun _ => .pure _

/-! ### Programs -/

namespace Program

/-- The fields and the entry method report truthfully. -/
theorem action_failsOnly (p : Program) (n : Nat) (entry : String) :
    (p.action n entry).FailsOnly
      (Truthful p.setting fun name => name = entry ∨ name ∈ p.callees) := by
  have hw : ∀ m ∈ p.setting.methods, ∀ st ∈ m.body, ∀ name ∈ st.callees,
      name = entry ∨ name ∈ p.callees :=
    fun m hm st hst name hname => .inr (mem_callees_of_method hm hst hname)
  obtain ⟨heval, hexec⟩ := evalExpr_execStmt_failsOnly hw n
  have hfields : (execAll (execStmt p.setting n Scopes.root) p.fields).FailsOnly
      (Truthful p.setting fun name => name = entry ∨ name ∈ p.callees) :=
    .execAll fun st hst => hexec _ st fun name hname => .inr (mem_callees_of_field hst hname)
  apply hfields.bind
  intro _
  refine .callMethod (.inl rfl) (by simp) ?_
  intro m hm callee st hst
  exact hexec callee st (hw m hm st hst)

theorem failed_of_after {α : Type} {p p' : Program} {x : Outcome Machine α} {cause : EvalError}
    {console' : Console} (h : p.after x = some (.error cause, p', console')) :
    ∃ m, x = .failed cause m := by
  cases x with
  | done a m => simp [after] at h
  | failed e m =>
    simp only [after, Option.some.injEq, Prod.mk.injEq, Except.error.injEq] at h
    exact ⟨m, by rw [h.1]⟩
  | unfinished => cases h

/-- A run with an entry method fails as its fields and its entry method do, or at the last flush. -/
theorem failed_of_run {p p' : Program} {n : Nat} {entry : String} {cause : EvalError}
    {console console' : Console} (hentry : p.entry = some entry)
    (h : p.run n console = some (.error cause, p', console')) :
    (∃ m, p.action n entry ⟨.initial, #[], console⟩ = .failed cause m) ∨
      ∃ why, cause = .console why := by
  simp only [run, hentry, Option.map_eq_some_iff] at h
  obtain ⟨⟨result, p'', console''⟩, hafter, heq⟩ := h
  cases result with
  | ok v =>
    right
    simp only [Prod.mk.injEq] at heq
    cases hflush : console''.flush with
    | ok _ =>
      rw [hflush] at heq
      cases heq.1
    | error why =>
      rw [hflush] at heq
      cases heq.1
      exact ⟨why, rfl⟩
  | error e =>
    left
    cases heq
    exact failed_of_after hafter

/-- Whatever error a run or an evaluation reports, what the report says is so. A run reports that
there is no entry method exactly if there is none, and then nothing has changed; evaluation never
reports it. A method that is not found is the entry method or is called in the program or in the
expression. -/
theorem error_reports_are_truthful (p : Program) (n : Nat) (console : Console) :
    (∀ cause p' console', p.run n console = some (.error cause, p', console') →
      (cause = .missingEntryPoint ∧ p.entry = none ∧ p' = p ∧ console' = console) ∨
      (p.entry ≠ none ∧
        cause.Truthful p.setting fun name => p.entry = some name ∨ name ∈ p.callees)) ∧
    (p.entry = none → p.run n console = some (.error .missingEntryPoint, p, console)) ∧
    (∀ e cause p' console', p.evaluate n e console = some (.error cause, p', console') →
      cause.Truthful p.setting fun name => name ∈ e.callees ∨ name ∈ p.callees) ∧
    ∀ name expected found, found ≠ expected →
      (expected < found ∧ (EvalError.argumentCount name expected found).message =
        argumentCountReport name "many" expected found) ∨
      (found < expected ∧ (EvalError.argumentCount name expected found).message =
        argumentCountReport name "few" expected found) := by
  refine ⟨?_, ?_, ?_, fun name expected found h => EvalError.message_of_miscount h name⟩
  · intro cause p' console' hrun
    cases hentry : p.entry with
    | none =>
      left
      simp only [run, hentry, Option.some.injEq, Prod.mk.injEq, Except.error.injEq] at hrun
      exact ⟨hrun.1.symm, rfl, hrun.2.1.symm, hrun.2.2.symm⟩
    | some entry =>
      right
      refine ⟨by simp, ?_⟩
      rcases failed_of_run hentry hrun with ⟨m, hfailed⟩ | ⟨why, rfl⟩
      · have htruthful := p.action_failsOnly n entry hfailed
        simpa only [Option.some.injEq, eq_comm] using htruthful
      · trivial
  · intro hentry
    simp only [run, hentry]
  · intro e cause p' console' heval
    obtain ⟨m, hfailed⟩ := failed_of_after heval
    have hw : ∀ m ∈ p.setting.methods, ∀ st ∈ m.body, ∀ name ∈ st.callees,
        name ∈ e.callees ∨ name ∈ p.callees :=
      fun m hm st hst name hname => .inr (mem_callees_of_method hm hst hname)
    exact (evalExpr_execStmt_failsOnly hw n).1 Scopes.root e (fun name hname => .inl hname) hfailed

/-- A program that calls a method with an argument too many. -/
def miscalling : Program where
  name := "miscalling"
  fields := []
  methods := [
    .ofDecl ⟨"twice", some ⟨"int"⟩, ["x"], [
      .assign "twice" (.binary (.var "x") .mul (.int 2))]⟩,
    .ofDecl ⟨"main", none, [], [.invoke (.call "twice" [.int 1, .int 2])]⟩]
  entry := some "main"
  limit := defaultLimit
  scopes := .initial

theorem miscalling_reports :
    miscalling.run 9 (.ofInput [] none false) =
      some (.error (.argumentCount "twice" 1 2), miscalling, .ofInput [] none false) ∧
    miscalling.evaluate 9 (.call "thrice" []) (.ofInput [] none false) =
      some (.error (.undeclaredMethod "thrice"), miscalling, .ofInput [] none false) ∧
    (empty 3).entry = none ∧ 2 ≠ 1 ∧
    (EvalError.argumentCount "twice" 1 2).Truthful miscalling.setting
      (fun name => miscalling.entry = some name ∨ name ∈ miscalling.callees) ∧
    (EvalError.undeclaredMethod "thrice").Truthful miscalling.setting
      (fun name => name ∈ (Expr.call "thrice" []).callees ∨ name ∈ miscalling.callees) ∧
    (empty 3).run 9 (.ofInput [] none false) =
      some (.error .missingEntryPoint, empty 3, .ofInput [] none false) ∧
    (EvalError.argumentCount "twice" 1 2).message = argumentCountReport "twice" "many" 1 2 := by
  have hrun : miscalling.run 9 (.ofInput [] none false) =
      some (.error (.argumentCount "twice" 1 2), miscalling, .ofInput [] none false) := by cbv
  have heval : miscalling.evaluate 9 (.call "thrice" []) (.ofInput [] none false) =
      some (.error (.undeclaredMethod "thrice"), miscalling, .ofInput [] none false) := by cbv
  obtain ⟨hreports, -, hevaluation, hmessage⟩ :=
    error_reports_are_truthful miscalling 9 (.ofInput [] none false)
  refine ⟨hrun, heval, rfl, by decide, ?_, hevaluation _ _ _ _ heval,
    (error_reports_are_truthful (empty 3) 9 _).2.1 rfl, ?_⟩
  · rcases hreports _ _ _ hrun with ⟨hcause, -⟩ | ⟨-, htruthful⟩
    · cases hcause
    · exact htruthful
  · rcases hmessage "twice" 1 2 (by decide) with ⟨-, hmany⟩ | ⟨hfew, -⟩
    · exact hmany
    · exact absurd hfew (by decide)

end Program

end MethodLang
