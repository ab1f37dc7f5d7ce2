import Mathlib
import MethodLang.Proofs.CallGraph
import MethodLang.Proofs.Evaluation
import MethodLang.Proofs.Results
import MethodLang.Proofs.Scopes.Later

/-!
# Signals

A break reaches the innermost loop around it and a return the method around it, and neither
reaches further. So no loop ends by a break; and whatever the methods that it calls do, a statement
ends by a break or a return only if one stands in it.

* `Stmt.raises` says that a signal stands in a statement where nothing in the statement takes it;
* `execAll_append` says that a list of statements stops at the first signal but `normal`;
* `Setting.SameButSignals` relates methods that differ in the signals at the ends of their bodies
  alone, and `SameButSignals.evalExpr_execStmt` says that evaluation does not tell them apart;
* `signals_are_confined` puts this together.
-/

namespace MethodLang

variable {σ α β : Type}

/-! ### Signals in the text -/

mutual

/-- A statement that gives the signal stands in the statement, and, if it is a break, outside the
loops there. -/
def Stmt.raises (signal : Signal) : Stmt → Bool
  | .brk => signal = .brk
  | .ret => signal = .ret
  | .doWhile _ body => signal ≠ .brk && body.raises signal
  | .block body | .seq body => Stmt.anyRaises signal body
  | .ite _ yes no => yes.raises signal || Stmt.optionRaises signal no
  | .declare .. | .assign .. | .read _ | .write _ | .invoke _ => false

def Stmt.optionRaises (signal : Signal) : Option Stmt → Bool
  | none => false
  | some st => st.raises signal

def Stmt.anyRaises (signal : Signal) : List Stmt → Bool
  | [] => false
  | st :: rest => st.raises signal || Stmt.anyRaises signal rest

end

namespace Stmt

variable {signal : Signal} {st part : Stmt}

theorem anyRaises_iff {body : List Stmt} :
    anyRaises signal body ↔ ∃ st ∈ body, st.raises signal := by
  induction body with
  | nil => simp [anyRaises]
  | cons st rest ih => simp [anyRaises, ih]

theorem not_doWhile_raises_brk (cond : Expr) (body : Stmt) :
    ¬(doWhile cond body).raises .brk := by
  simp [raises]

/-- What is raised in a part is raised in the whole, unless a loop takes it. -/
theorem raises_of_mem_parts (h : part ∈ st.parts) (hpart : part.raises signal)
    (hloop : ∀ cond body, st = .doWhile cond body → signal ≠ .brk) : st.raises signal := by
  cases st with
  | block body | seq body =>
    rw [raises, anyRaises_iff]
    exact ⟨part, h, hpart⟩
  | ite cond yes no =>
    rw [raises, Bool.or_eq_true]
    simp only [parts, List.mem_cons, Option.mem_toList] at h
    rcases h with rfl | h
    · exact .inl hpart
    · cases h
      exact .inr hpart
  | doWhile cond body =>
    obtain rfl := List.mem_singleton.1 h
    simp [raises, hloop cond part rfl, hpart]
  | declare | assign | brk | ret | read | write | invoke => simp [parts] at h

end Stmt

/-! ### Results with a property -/

/-- Every result of the action has the property. -/
def Action.Gives (P : α → Prop) (x : Action σ α) : Prop := ∀ s a s', x s = .done a s' → P a

namespace Action.Gives

variable {P Q : α → Prop} {x : Action σ α}

theorem mono (h : x.Gives P) (hPQ : ∀ a, P a → Q a) : x.Gives Q :=
  fun s a s' hx => hPQ a (h s a s' hx)

protected theorem pure {a : α} (h : P a) : (Pure.pure a : Action σ α).Gives P := by
  intro s a' s' hx
  obtain ⟨rfl, -⟩ := pure_eq_done_iff.1 hx
  exact h

protected theorem bind {P : β → Prop} {f : α → Action σ β} (h : x.Gives Q)
    (hf : ∀ a, Q a → (f a).Gives P) : (x >>= f).Gives P := by
  intro s b s'' hx
  obtain ⟨a, s', hx, hfa⟩ := bind_eq_done_iff.1 hx
  exact hf a (h s a s' hx) s' b s'' hfa

/-- The result of a sequence is that of its second part. -/
theorem last {P : β → Prop} {f : α → Action σ β} (hf : ∀ a, (f a).Gives P) : (x >>= f).Gives P :=
  Gives.bind (Q := fun _ => True) (fun _ _ _ _ => trivial) fun a _ => hf a

theorem inScope {P : α → Prop} {parent : Option ScopeId} {body : ScopeId → Action Machine α}
    (h : ∀ scope, (body scope).Gives P) : (Action.inScope parent body).Gives P := by
  intro m a m' hx
  rw [inScope_apply, Outcome.mapState_eq_done_iff] at hx
  obtain ⟨m'', hbody, -⟩ := hx
  exact h _ _ _ _ hbody

theorem execAll {P : Signal → Prop} {exec : Stmt → Action σ Signal} {body : List Stmt}
    (hnormal : P .normal) (h : ∀ st ∈ body, (exec st).Gives P) :
    (MethodLang.execAll exec body).Gives P := by
  induction body with
  | nil => exact .pure hnormal
  | cons st rest ih =>
    rw [List.forall_mem_cons] at h
    refine h.1.bind fun signal hsignal => ?_
    cases signal with
    | normal => exact ih h.2
    | brk | ret => exact .pure hsignal

end Action.Gives

/-- A statement that does not end normally ends by a signal that stands in it. -/
theorem execStmt_gives (w : Setting) (n : Nat) (scope : ScopeId) (st : Stmt) :
    (execStmt w n scope st).Gives fun signal => signal = .normal ∨ st.raises signal := by
  induction n generalizing scope st with
  | zero =>
    intro m signal m' h
    cases h
  | succ n ih =>
    -- only a loop takes a signal of a part
    have hpart : ∀ part ∈ st.parts, (∀ cond body, st ≠ .doWhile cond body) → ∀ scope,
        (execStmt w n scope part).Gives fun signal => signal = .normal ∨ st.raises signal := by
      intro part hmem hloop scope
      refine (ih scope part).mono fun signal => Or.imp_right fun h => ?_
      exact Stmt.raises_of_mem_parts hmem h fun cond body hst => absurd hst (hloop cond body)
    cases st with
    | declare | read | invoke =>
      rw [execStmt]
      exact .last fun _ => .pure (.inl rfl)
    | assign | write =>
      rw [execStmt]
      exact .last fun _ => .last fun _ => .pure (.inl rfl)
    | block body =>
      rw [execStmt]
      exact .inScope fun inner => .execAll (.inl rfl) fun st hst => hpart st hst (by simp) inner
    | seq body =>
      rw [execStmt]
      exact .execAll (.inl rfl) fun st hst => hpart st hst (by simp) scope
    | ite cond yes no =>
      rw [execStmt]
      refine .last fun v => .last fun truth => ?_
      cases truth with
      | true => exact hpart yes List.mem_cons_self (by simp) scope
      | false =>
        cases no with
        | none => exact .pure (.inl rfl)
        | some st => exact hpart st (by simp [Stmt.parts]) (by simp) scope
    | doWhile cond body =>
      rw [execStmt]
      refine (ih scope body).bind fun signal hsignal => ?_
      cases signal with
      | brk => exact .pure (.inl rfl)
      | ret =>
        have hbody : body.raises .ret := hsignal.resolve_left (by decide)
        refine .pure (.inr (Stmt.raises_of_mem_parts List.mem_cons_self hbody ?_))
        exact fun _ _ _ => by decide
      | normal =>
        refine .last fun v => .last fun truth => ?_
        cases truth with
        | true => exact ih scope (.doWhile cond body)
        | false => exact .pure (.inl rfl)
    | brk => exact .pure (.inr rfl)
    | ret =>
      rw [execStmt]
      exact .last fun _ => .pure (.inr rfl)

theorem raises_of_execStmt {w : Setting} {n : Nat} {scope : ScopeId} {st : Stmt} {m m' : Machine}
    {signal : Signal} (hsignal : signal ≠ .normal)
    (h : execStmt w n scope st m = .done signal m') : st.raises signal :=
  (execStmt_gives w n scope st m signal m' h).resolve_left hsignal

/-! ### Lists of statements -/

theorem execAll_singleton (exec : Stmt → Action σ Signal) (st : Stmt) :
    execAll exec [st] = exec st := by
  have hlast : execAll exec [st] = exec st >>= pure := by
    rw [execAll]
    congr 1
    funext signal
    cases signal <;> rfl
  rw [hlast, bind_pure]

/-- Statements one after another: the second list runs if the first one ends normally. -/
theorem execAll_append (exec : Stmt → Action σ Signal) (xs ys : List Stmt) :
    execAll exec (xs ++ ys) =
      execAll exec xs >>= fun signal =>
        if signal = .normal then execAll exec ys else pure signal := by
  induction xs with
  | nil => simp [execAll]
  | cons st rest ih =>
    rw [List.cons_append, execAll, execAll, bind_assoc]
    congr 1
    funext signal
    cases signal with
    | normal => exact ih
    | brk | ret => rw [pure_bind]; rfl

/-! ### Signals and calls -/

/-- The same outcome with nothing in the place of the result. -/
def Outcome.forget : Outcome σ α → Outcome σ Unit
  | .done _ s => .done () s
  | .failed e s => .failed e s
  | .unfinished => .unfinished

theorem Outcome.forget_mapState {τ : Type} (f : σ → τ) (x : Outcome σ α) :
    (x.mapState f).forget = x.forget.mapState f := by
  cases x <;> rfl

namespace Action

variable {x y : Action σ α} {f g : α → Action σ β} {s : σ}

/-- What comes after a result that is not used depends on the state alone. -/
theorem bind_congr_forget (h : (x s).forget = (y s).forget) (z : Action σ β) :
    (x >>= fun _ => z) s = (y >>= fun _ => z) s := by
  simp only [Bind.bind, Action.bind]
  cases hx : x s <;> cases hy : y s <;> simp_all [Outcome.forget]

theorem bind_congr_done (h : ∀ a s', x s = .done a s' → f a s' = g a s') :
    (x >>= f) s = (x >>= g) s := by
  simp only [Bind.bind, Action.bind]
  cases hx : x s with
  | done a s' => exact h a s' hx
  | failed | unfinished => rfl

end Action

/-- Two methods that are called alike and whose bodies do the same but for the signals at their
ends, wherever the variable for the result is visible. -/
structure Method.SameButSignal (w : Setting) (m m' : Method) : Prop where
  name : m'.name = m.name
  returns : m'.returns = m.returns
  params : m'.params = m.params
  body (n : Nat) (scope : ScopeId) (machine : Machine)
    (hcall : machine.calls.back? = some m.name) (hresult : machine.scopes.isVisible scope m.name) :
    (execAll (execStmt w n scope) m'.body machine).forget =
      (execAll (execStmt w n scope) m.body machine).forget

/-- The settings have methods of the same names, which differ in the signals at their ends alone. -/
structure Setting.SameButSignals (w w' : Setting) : Prop where
  limit : w'.limit = w.limit
  method? (name : String) : Option.Rel (Method.SameButSignal w) (w.method? name) (w'.method? name)

/-- A method runs as another does if their bodies do the same but for the signals at their ends. -/
theorem runMethod_congr {exec : ScopeId → Stmt → Action Machine Signal} {m m' : Method}
    (hname : m'.name = m.name) (hreturns : m'.returns = m.returns) {callee : ScopeId}
    (hbody : ∀ opened : Machine, opened.calls.back? = some m.name →
      opened.scopes.isVisible callee m.name →
      (execAll (exec callee) m'.body opened).forget = (execAll (exec callee) m.body opened).forget)
    {machine : Machine} (hl : machine.scopes.Live callee) :
    runMethod exec callee m' machine = runMethod exec callee m machine := by
  rw [runMethod, runMethod, hname, hreturns]
  apply Action.bind_congr_done
  intro _ opened hdeclare
  obtain ⟨scopes, hscopes, rfl⟩ := Action.update_eq_done_iff.1 hdeclare
  obtain ⟨-, rfl⟩ := Scopes.declare_eq_ok_iff.1 hscopes
  apply Action.bind_congr_forget
  rw [Action.inCall_apply, Action.inCall_apply, Outcome.forget_mapState, Outcome.forget_mapState]
  congr 1
  apply hbody
  · exact Array.back?_push
  · rw [Scopes.isVisible, Scopes.resolve_put_self _ hl]
    rfl

/-- Calls are the same under methods that are called alike and run alike in a live scope. -/
theorem callMethod_congr {w w' : Setting} (hlimit : w'.limit = w.limit) (u : Setting) (n : Nat)
    (scope : ScopeId) (parent : Option ScopeId) (name : String) (args : List Expr)
    (hmethod : Option.Rel (fun m m' : Method => m'.params = m.params ∧
      ∀ (callee : ScopeId) (machine : Machine), machine.scopes.Live callee →
        runMethod (execStmt u n) callee m' machine = runMethod (execStmt u n) callee m machine)
      (w.method? name) (w'.method? name)) :
    callMethod w' (evalExpr u n scope) (execStmt u n) parent name args =
      callMethod w (evalExpr u n scope) (execStmt u n) parent name args := by
  rw [callMethod, callMethod, hlimit]
  generalize w.method? name = found at hmethod ⊢
  generalize w'.method? name = found' at hmethod ⊢
  cases hmethod with
  | none => rfl
  | @some m m' hsame =>
    simp only [hsame.1]
    congr 1
    funext depth
    split
    · rfl
    · funext machine
      rw [Action.inScope_apply, Action.inScope_apply]
      congr 1
      apply Action.bind_congr_done
      intro _ bound hbind
      apply hsame.2
      -- the scope of the method is still open after the arguments are bound
      have hlater := later_stable.keeps_bindArgs (later_stable.keeps_evalExpr u n scope)
        machine.scopes.next (.argumentCount name m.params.length args.length) m.params args
      exact (hlater.of_done hbind).live (Scopes.live_push_next machine.scopes parent)

variable {w w' : Setting}

theorem Setting.SameButSignals.callMethod_eq (h : w.SameButSignals w') (n : Nat)
    (scope : ScopeId) (parent : Option ScopeId) (name : String) (args : List Expr) :
    callMethod w' (evalExpr w n scope) (execStmt w n) parent name args =
      callMethod w (evalExpr w n scope) (execStmt w n) parent name args := by
  apply callMethod_congr h.limit
  have hrel := h.method? name
  generalize w.method? name = found at hrel ⊢
  generalize w'.method? name = found' at hrel ⊢
  cases hrel with
  | none => exact .none
  | some hsame =>
    refine .some ⟨hsame.params, fun callee machine hl => ?_⟩
    exact runMethod_congr hsame.name hsame.returns (hsame.body n callee) hl

/-- Evaluation does not tell methods apart that differ in the signals at their ends. -/
theorem Setting.SameButSignals.evalExpr_execStmt (h : w.SameButSignals w') (n : Nat) :
    (∀ scope e, evalExpr w' n scope e = evalExpr w n scope e) ∧
      ∀ scope st, execStmt w' n scope st = execStmt w n scope st := by
  induction n with
  | zero => exact ⟨fun _ _ => rfl, fun _ _ => rfl⟩
  | succ n ih =>
    obtain ⟨heval, hexec⟩ := ih
    constructor
    · intro scope e
      apply Action.eq_congruence.evalExpr_succ scope e fun part _ => heval scope part
      intro name args _
      rw [invoke, invoke, funext (heval scope), funext₂ hexec]
      exact h.callMethod_eq n scope none name args
    · intro scope st
      apply Action.eq_congruence.execStmt_succ scope st (fun e _ => heval scope e)
        fun part _ scope => hexec scope part
      exact fun _ _ _ => hexec scope st

/-! ### Confinement -/

/-- Signals reach no further than what they leave. A statement ends by a break only if one stands in
it outside its loops, and by a return only if one stands in it; a loop never ends by a break; the
signals at the ends of methods make no difference to any statement; and a list of statements goes on
to its second part if the first one ends normally, and otherwise ends as the first one does. -/
theorem signals_are_confined (w : Setting) (n : Nat) (scope : ScopeId) :
    (∀ (st : Stmt) (m m' : Machine), execStmt w n scope st m = .done .brk m' → st.raises .brk) ∧
    (∀ (st : Stmt) (m m' : Machine), execStmt w n scope st m = .done .ret m' → st.raises .ret) ∧
    (∀ (cond : Expr) (body : Stmt) (m m' : Machine),
      execStmt w n scope (.doWhile cond body) m ≠ .done .brk m') ∧
    (∀ w' : Setting, w.SameButSignals w' → ∀ st : Stmt,
      execStmt w' n scope st = execStmt w n scope st) ∧
    ∀ xs ys : List Stmt,
      execAll (execStmt w n scope) (xs ++ ys) =
        execAll (execStmt w n scope) xs >>= fun signal =>
          if signal = .normal then execAll (execStmt w n scope) ys else pure signal := by
  refine ⟨?_, ?_, ?_, ?_, ?_⟩
  · exact fun st m m' h => raises_of_execStmt (by decide) h
  · exact fun st m m' h => raises_of_execStmt (by decide) h
  · exact fun cond body m m' h =>
      Stmt.not_doWhile_raises_brk cond body (raises_of_execStmt (by decide) h)
  · exact fun w' hsame st => (hsame.evalExpr_execStmt n).2 scope st
  · exact execAll_append (execStmt w n scope)

/-- Where the variable for the result is visible, a return only signals. -/
theorem execStmt_ret_of_isVisible {n : Nat} {scope : ScopeId} {m : Machine} {name : String}
    (hcall : m.calls.back? = some name) (hresult : m.scopes.isVisible scope name) :
    execStmt w (n + 1) scope .ret m = .done .ret m := by
  obtain ⟨found, hfound⟩ := Option.isSome_iff_exists.1 hresult
  rw [execStmt, Action.bind_eq_done_iff]
  refine ⟨(), m, ?_, rfl⟩
  rw [findResult, Action.innermost_bind_apply, hcall]
  refine Action.bind_eq_done_iff.2 ⟨found.2.value, m, ?_, rfl⟩
  rw [Action.query_eq_done_iff, Scopes.lookup, Scopes.slot, hfound]
  exact ⟨rfl, rfl⟩

/-- One method, which returns at once. -/
def returning : Setting := ⟨[.ofDecl ⟨"leave", none, [], []⟩], 2⟩

/-- The method of `returning`, with a break before it returns. -/
def breaking : Setting := ⟨[.ofDecl ⟨"leave", none, [], [.brk]⟩], 2⟩

theorem returning_sameButSignals_breaking : returning.SameButSignals breaking where
  limit := rfl
  method? name := by
    by_cases hname : name = "leave"
    · subst hname
      refine .some ⟨rfl, rfl, rfl, fun n scope machine hcall hresult => ?_⟩
      cases n with
      | zero => rfl
      | succ n =>
        have hret : execStmt returning (n + 1) scope .ret machine = .done .ret machine :=
          execStmt_ret_of_isVisible hcall hresult
        have hreturns : execAll (execStmt returning (n + 1) scope) [.ret] machine =
            .done .ret machine :=
          Action.bind_eq_done_iff.2 ⟨.ret, machine, hret, rfl⟩
        have hbreaks : execAll (execStmt returning (n + 1) scope) [.brk, .ret] machine =
            .done .brk machine := rfl
        exact (congrArg Outcome.forget hbreaks).trans (congrArg Outcome.forget hreturns).symm
    · have hnone : ∀ m : Method, m.name = "leave" → Setting.method? ⟨[m], 2⟩ name = none := by
        intro m hm
        simp [Setting.method?, hm, Ne.symm hname]
      rw [returning, breaking, hnone _ rfl, hnone _ rfl]
      exact .none

/-- No call is active, and there is only the root. -/
def atRoot : Machine := ⟨.initial, #[], .ofInput [] none false⟩

/-- Call the method, and then leave the loop around. -/
def callAndLeave : Stmt := .block [.invoke (.call "leave" []), .brk, .invoke (.call "leave" [])]

/-- Return from a loop, through which the method was called. -/
def returnFromLoop : Stmt := .doWhile (.bool true) (.seq [.invoke (.call "leave" []), .ret])

theorem signals_are_confined_returning :
    execStmt returning 9 Scopes.root callAndLeave atRoot = .done .brk atRoot ∧
    callAndLeave.raises .brk ∧
    execStmt returning 9 Scopes.root returnFromLoop atRoot = .done .ret atRoot ∧
    returnFromLoop.raises .ret ∧
    execStmt returning 9 Scopes.root (.doWhile (.bool true) callAndLeave) atRoot ≠
      .done .brk atRoot ∧
    returning.SameButSignals breaking ∧
    execStmt breaking 9 Scopes.root callAndLeave = execStmt returning 9 Scopes.root callAndLeave ∧
    execAll (execStmt returning 9 Scopes.root) ([returnFromLoop] ++ [callAndLeave]) =
      execAll (execStmt returning 9 Scopes.root) [returnFromLoop] >>= (fun signal =>
        if signal = .normal then execAll (execStmt returning 9 Scopes.root) [callAndLeave]
        else pure signal) := by
  have hbreak : execStmt returning 9 Scopes.root callAndLeave atRoot = .done .brk atRoot := by cbv
  have hret : execStmt returning 9 Scopes.root returnFromLoop atRoot = .done .ret atRoot := by cbv
  obtain ⟨hbrk, hreturn, hloop, hcalls, happend⟩ := signals_are_confined returning 9 Scopes.root
  exact ⟨hbreak, hbrk _ _ _ hbreak, hret, hreturn _ _ _ hret, hloop _ _ _ _,
    returning_sameButSignals_breaking, hcalls _ returning_sameButSignals_breaking _, happend _ _⟩

end MethodLang
