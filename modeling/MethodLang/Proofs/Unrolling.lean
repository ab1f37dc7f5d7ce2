import Mathlib
import MethodLang.Eval.Steps
import MethodLang.Proofs.Signals

/-!
# Unrolling a loop

A loop is its body followed by a conditional that has the loop in it. It makes no difference how
often the loop is repeated, or whether it ends at all; but a break in the body would leave another
loop, so the body must have none outside of its own loops, and a first test without a truth value is
reported with the construct that makes it.

* `Action.EndsIn` says how an action ends when it is given steps enough;
* `endsIn_bind_iff` says how a sequence ends, by how its parts end;
* `doWhile_unrolls` compares a loop with `Stmt.unrolled`, and says how the loop goes on after its
  body has ended.
-/

namespace MethodLang

variable {σ α β : Type}

/-! ### With steps enough -/

/-- How a sequence ends whose first part has ended: as the second part does, or in the error. -/
def Outcome.Then (o₁ : Outcome σ α) (next : α → σ → Outcome σ β → Prop) (o : Outcome σ β) : Prop :=
  match o₁ with
  | .done a s => next a s o
  | .failed e s => o = .failed e s
  | .unfinished => False

namespace Action

/-- With more steps the action does what it did, wherever it ended. -/
def Steady (x : Nat → Action σ α) : Prop := ∀ n k, n ≤ k → (x n).Refines (x k)

/-- With steps enough the action ends, and ends so. -/
def EndsIn (x : Nat → Action σ α) (s : σ) (o : Outcome σ α) : Prop :=
  o ≠ .unfinished ∧ ∃ n, x n s = o

variable {x : Nat → Action σ α} {f : Nat → α → Action σ β} {s s' : σ} {o o' : Outcome σ α} {a : α}
  {cause : EvalError}

theorem Steady.const (x : Action σ α) : Steady fun _ => x := fun _ _ _ => .refl x

theorem Steady.succ (h : Steady x) : Steady fun n => x (n + 1) :=
  fun n k hnk => h (n + 1) (k + 1) (Nat.succ_le_succ hnk)

protected theorem Steady.bind (h : Steady x) (hf : ∀ a, Steady fun n => f n a) :
    Steady fun n => x n >>= f n :=
  fun n k hnk => (h n k hnk).bind fun a => hf a n k hnk

theorem Steady.eq_of_le (h : Steady x) {n k : Nat} (hnk : n ≤ k) (hn : x n s = o)
    (ho : o ≠ .unfinished) : x k s = o := by
  rw [h n k hnk s (by rwa [hn]), hn]

theorem EndsIn.of_done {n : Nat} (h : x n s = .done a s') : EndsIn x s (.done a s') :=
  ⟨by simp, n, h⟩

theorem EndsIn.of_failed {n : Nat} (h : x n s = .failed cause s') :
    EndsIn x s (.failed cause s') :=
  ⟨by simp, n, h⟩

/-- An action ends in one way only. -/
theorem EndsIn.unique (hx : Steady x) (h : EndsIn x s o) (h' : EndsIn x s o') : o = o' := by
  obtain ⟨ho, n, hn⟩ := h
  obtain ⟨ho', k, hk⟩ := h'
  rw [← hx.eq_of_le (Nat.le_max_left n k) hn ho, hx.eq_of_le (Nat.le_max_right n k) hk ho']

theorem endsIn_const_iff {x : Action σ α} (h : x s ≠ .unfinished) :
    EndsIn (fun _ => x) s o ↔ o = x s := by
  constructor
  · rintro ⟨-, n, hn⟩
    exact hn.symm
  · rintro rfl
    exact ⟨h, 0, rfl⟩

theorem endsIn_succ_iff (hx : Steady x) : EndsIn (fun n => x (n + 1)) s o ↔ EndsIn x s o := by
  constructor
  · rintro ⟨ho, n, hn⟩
    exact ⟨ho, n + 1, hn⟩
  · rintro ⟨ho, n, hn⟩
    exact ⟨ho, n, hx.eq_of_le n.le_succ hn ho⟩

/-- A sequence ends as its second part does after the first, or in the error of the first. -/
theorem endsIn_bind_iff (hx : Steady x) (hf : ∀ a, Steady fun n => f n a) {o : Outcome σ β} :
    EndsIn (fun n => x n >>= f n) s o ↔
      ∃ o₁, EndsIn x s o₁ ∧ o₁.Then (fun a s' => EndsIn (fun n => f n a) s') o := by
  constructor
  · rintro ⟨ho, n, hn⟩
    simp only [Bind.bind, Action.bind] at hn
    cases hxn : x n s with
    | done a s' =>
      rw [hxn] at hn
      exact ⟨.done a s', .of_done hxn, ho, n, hn⟩
    | failed e s' =>
      rw [hxn] at hn
      exact ⟨.failed e s', .of_failed hxn, hn.symm⟩
    | unfinished =>
      rw [hxn] at hn
      exact absurd hn.symm ho
  · rintro ⟨o₁, ⟨ho₁, n, hn⟩, hthen⟩
    cases o₁ with
    | done a s' =>
      obtain ⟨ho, k, hk⟩ := hthen
      refine ⟨ho, max n k, ?_⟩
      simp only [Bind.bind, Action.bind, hx.eq_of_le (Nat.le_max_left n k) hn ho₁]
      exact (hf a).eq_of_le (Nat.le_max_right n k) hk ho
    | failed e s' =>
      obtain rfl : o = .failed e s' := hthen
      apply EndsIn.of_failed (n := n)
      simp only [Bind.bind, Action.bind, hn]
    | unfinished => exact absurd rfl ho₁

/-- Where it is known how the first part ends, the second part decides. -/
theorem exists_endsIn_then_iff {next : α → σ → Outcome σ β → Prop} {o : Outcome σ β}
    (hx : Steady x) (h : EndsIn x s (.done a s')) :
    (∃ o₁, EndsIn x s o₁ ∧ o₁.Then next o) ↔ next a s' o := by
  constructor
  · rintro ⟨o₁, h₁, hnext⟩
    rwa [h₁.unique hx h] at hnext
  · exact fun hnext => ⟨_, h, hnext⟩

end Action

open MethodLang.Action (Steady EndsIn endsIn_bind_iff endsIn_succ_iff endsIn_const_iff
  exists_endsIn_then_iff)

/-- The statement ends in the scope, and ends so. -/
abbrev Stmt.EndsIn (st : Stmt) (w : Setting) (scope : ScopeId) :
    Machine → Outcome Machine Signal → Prop :=
  Action.EndsIn fun n => execStmt w n scope st

/-- The expression ends in the scope, and ends so. -/
abbrev Expr.EndsIn (e : Expr) (w : Setting) (scope : ScopeId) :
    Machine → Outcome Machine Value → Prop :=
  Action.EndsIn fun n => evalExpr w n scope e

theorem steady_execStmt (w : Setting) (scope : ScopeId) (st : Stmt) :
    Steady fun n => execStmt w n scope st :=
  fun _ _ h => execStmt_refines w h scope st

theorem steady_evalExpr (w : Setting) (scope : ScopeId) (e : Expr) :
    Steady fun n => evalExpr w n scope e :=
  fun _ _ h => evalExpr_refines w h scope e

theorem Stmt.EndsIn.raises {w : Setting} {scope : ScopeId} {st : Stmt} {m m' : Machine}
    {signal : Signal} (h : st.EndsIn w scope m (.done signal m')) (hsignal : signal ≠ .normal) :
    st.raises signal := by
  obtain ⟨-, n, hn⟩ := h
  exact raises_of_execStmt hsignal hn

/-! ### Loops -/

/-- The body of a loop, and then the loop if the condition holds. -/
def Stmt.unrolled (cond : Expr) (body : Stmt) : Stmt :=
  .seq [body, .ite cond (.doWhile cond body) none]

/-- Past a loop, a break has been taken. -/
def Signal.pastLoop : Signal → Signal
  | .brk => .normal
  | signal => signal

/-- Test the condition of a loop, on behalf of a construct, and repeat the loop if it holds. -/
def testLoop (w : Setting) (construct : Conditional) (scope : ScopeId) (cond : Expr) (body : Stmt)
    (n : Nat) : Action Machine Signal := do
  let v ← evalExpr w n scope cond
  if ← .ofExcept (v.truth construct) then execStmt w n scope (.doWhile cond body)
  else pure .normal

variable {w : Setting} {scope : ScopeId} {cond : Expr} {body : Stmt} {construct : Conditional}
  {m m₁ m₂ : Machine} {o : Outcome Machine Signal} {v : Value}

theorem execStmt_doWhile (w : Setting) (n : Nat) (scope : ScopeId) (cond : Expr) (body : Stmt) :
    execStmt w (n + 1) scope (.doWhile cond body) =
      execStmt w n scope body >>= fun signal =>
        if signal = .normal then testLoop w .doWhile scope cond body n
        else pure signal.pastLoop := by
  rw [execStmt]
  congr 1
  funext signal
  cases signal <;> rfl

/-- The conditional is the last statement, so that its signal is that of the whole. -/
theorem execStmt_unrolled (w : Setting) (n : Nat) (scope : ScopeId) (cond : Expr) (body : Stmt) :
    execStmt w (n + 2) scope (.unrolled cond body) =
      execStmt w (n + 1) scope body >>= fun signal =>
        if signal = .normal then testLoop w .ite scope cond body n else pure signal := by
  have hlist : [body, .ite cond (.doWhile cond body) none] =
      [body] ++ [.ite cond (.doWhile cond body) none] := rfl
  rw [Stmt.unrolled, execStmt, hlist, execAll_append, execAll_singleton, execAll_singleton,
    execStmt]
  rfl

theorem steady_testLoop (w : Setting) (construct : Conditional) (scope : ScopeId) (cond : Expr)
    (body : Stmt) : Steady (testLoop w construct scope cond body) := by
  refine (steady_evalExpr w scope cond).bind fun v => (Steady.const _).bind fun truth => ?_
  cases truth with
  | true => exact steady_execStmt w scope (.doWhile cond body)
  | false => exact .const _

/-- How a loop ends, by how its body does. -/
theorem doWhile_endsIn_iff :
    (Stmt.doWhile cond body).EndsIn w scope m o ↔
      ∃ o₁, body.EndsIn w scope m o₁ ∧ o₁.Then (fun signal =>
        EndsIn fun n =>
          if signal = .normal then testLoop w .doWhile scope cond body n
          else pure signal.pastLoop) o := by
  rw [Stmt.EndsIn, ← endsIn_succ_iff (steady_execStmt w scope _)]
  simp only [execStmt_doWhile]
  refine endsIn_bind_iff (steady_execStmt w scope body) fun signal => ?_
  split
  · exact steady_testLoop w .doWhile scope cond body
  · exact .const _

/-- How the unrolled loop ends, by how the body does. -/
theorem unrolled_endsIn_iff :
    (Stmt.unrolled cond body).EndsIn w scope m o ↔
      ∃ o₁, body.EndsIn w scope m o₁ ∧ o₁.Then (fun signal =>
        EndsIn fun n =>
          if signal = .normal then testLoop w .ite scope cond body n else pure signal) o := by
  have hbody := steady_execStmt w scope body
  -- the list and the conditional take a step each before the loop is reached
  rw [Stmt.EndsIn, ← endsIn_succ_iff (steady_execStmt w scope _),
    ← endsIn_succ_iff (steady_execStmt w scope _).succ]
  simp only [execStmt_unrolled]
  rw [endsIn_bind_iff hbody.succ]
  · simp only [endsIn_succ_iff hbody]
  · intro signal
    split
    · exact steady_testLoop w .ite scope cond body
    · exact .const _

/-- How a test ends, by how the condition does. -/
theorem testLoop_endsIn_iff :
    EndsIn (testLoop w construct scope cond body) m o ↔
      ∃ o₁, cond.EndsIn w scope m o₁ ∧ o₁.Then (fun v =>
        EndsIn fun n =>
          .ofExcept (v.truth construct) >>= fun truth =>
            if truth then execStmt w n scope (.doWhile cond body) else pure .normal) o := by
  refine endsIn_bind_iff (steady_evalExpr w scope cond) fun v =>
    (Steady.const _).bind fun truth => ?_
  cases truth with
  | true => exact steady_execStmt w scope (.doWhile cond body)
  | false => exact .const _

/-! ### After the body -/

theorem Value.truth_of_ne_bool (h : ∀ b, v ≠ .bool b) (construct : Conditional) :
    v.truth construct = .error (.typeMismatch (.condition construct v.ty)) := by
  cases v with
  | bool b => exact absurd rfl (h b)
  | untyped | int => rfl

theorem doWhile_endsIn_of_normal (h : body.EndsIn w scope m (.done .normal m₁)) :
    (Stmt.doWhile cond body).EndsIn w scope m o ↔
      EndsIn (testLoop w .doWhile scope cond body) m₁ o := by
  rw [doWhile_endsIn_iff]
  exact exists_endsIn_then_iff (steady_execStmt w scope body) h

theorem unrolled_endsIn_of_normal (h : body.EndsIn w scope m (.done .normal m₁)) :
    (Stmt.unrolled cond body).EndsIn w scope m o ↔
      EndsIn (testLoop w .ite scope cond body) m₁ o := by
  rw [unrolled_endsIn_iff]
  exact exists_endsIn_then_iff (steady_execStmt w scope body) h

/-- A test without a truth value is an error of the construct that makes it. -/
theorem testLoop_endsIn_of_ne_bool (h : cond.EndsIn w scope m₁ (.done v m₂))
    (hv : ∀ b, v ≠ .bool b) :
    EndsIn (testLoop w construct scope cond body) m₁ o ↔
      o = .failed (.typeMismatch (.condition construct v.ty)) m₂ := by
  rw [testLoop_endsIn_iff, exists_endsIn_then_iff (steady_evalExpr w scope cond) h,
    Value.truth_of_ne_bool hv]
  exact endsIn_const_iff (x := .fail _) (by simp [Action.fail])

/-- A test that holds leads to the loop again. -/
theorem testLoop_endsIn_of_true (h : cond.EndsIn w scope m₁ (.done (.bool true) m₂)) :
    EndsIn (testLoop w construct scope cond body) m₁ o ↔
      (Stmt.doWhile cond body).EndsIn w scope m₂ o := by
  rw [testLoop_endsIn_iff]
  exact exists_endsIn_then_iff (steady_evalExpr w scope cond) h

/-- A body that does not end normally is not followed by a test. -/
theorem doWhile_endsIn_of_not_normal (hbreak : ¬body.raises .brk) (h : body.EndsIn w scope m o)
    (hnormal : ∀ m₁, o ≠ .done .normal m₁) : (Stmt.doWhile cond body).EndsIn w scope m o := by
  refine doWhile_endsIn_iff.2 ⟨o, h, ?_⟩
  cases o with
  | done signal m₁ =>
    cases signal with
    | normal => exact absurd rfl (hnormal m₁)
    | brk => exact absurd (h.raises (by decide)) hbreak
    | ret => exact .of_done (n := 0) rfl
  | failed e m₁ => rfl
  | unfinished => exact absurd rfl h.1

/-- With truth values at the first test, the loop and the unrolled loop end alike. -/
theorem doWhile_endsIn_iff_unrolled (hbreak : ¬body.raises .brk)
    (htest : ∀ m₁ v m₂, body.EndsIn w scope m (.done .normal m₁) →
      cond.EndsIn w scope m₁ (.done v m₂) → ∃ b, v = .bool b) :
    (Stmt.doWhile cond body).EndsIn w scope m o ↔
      (Stmt.unrolled cond body).EndsIn w scope m o := by
  rw [doWhile_endsIn_iff, unrolled_endsIn_iff]
  refine exists_congr fun o₁ => and_congr_right fun hbody => ?_
  cases o₁ with
  | done signal m₁ =>
    cases signal with
    | normal =>
      -- the tests differ only in what they report
      refine testLoop_endsIn_iff.trans (Iff.trans ?_ testLoop_endsIn_iff.symm)
      refine exists_congr fun o₂ => and_congr_right fun hcond => ?_
      cases o₂ with
      | done v m₂ =>
        obtain ⟨b, rfl⟩ := htest m₁ v m₂ hbody hcond
        exact Iff.rfl
      | failed | unfinished => exact Iff.rfl
    | brk => exact absurd (hbody.raises (by decide)) hbreak
    | ret => exact Iff.rfl
  | failed | unfinished => exact Iff.rfl

theorem doWhile_unfinished (h : ∀ n, execStmt w n scope body m = .unfinished) (n : Nat) :
    execStmt w n scope (.doWhile cond body) m = .unfinished := by
  cases n with
  | zero => rfl
  | succ n =>
    rw [execStmt_doWhile]
    simp only [Bind.bind, Action.bind, h n]

/-- A loop whose body has no break outside of its own loops is the body followed by a conditional
that has the loop in it. In a live scope of any machine

* if the first test gives no truth value, the loop ends in the error of a loop and the unrolled loop
  in that of a conditional, on the same machine;
* otherwise both end in the same signal or the same error on the same machine, or neither ends;
* if the body does not end normally, the loop ends as the body, and if the body does not end,
  neither does the loop;
* if the body ends normally and the condition holds then, the loop goes on as it would from there,
  and with all variables as the body left them. -/
theorem doWhile_unrolls (w : Setting) (scope : ScopeId) (cond : Expr) (body : Stmt) (m : Machine)
    (hbreak : ¬body.raises .brk) (hl : m.scopes.Live scope) :
    (∀ m₁ v m₂, body.EndsIn w scope m (.done .normal m₁) →
      cond.EndsIn w scope m₁ (.done v m₂) → (∀ b, v ≠ .bool b) →
      (∀ o, (Stmt.doWhile cond body).EndsIn w scope m o ↔
        o = .failed (.typeMismatch (.condition .doWhile v.ty)) m₂) ∧
      ∀ o, (Stmt.unrolled cond body).EndsIn w scope m o ↔
        o = .failed (.typeMismatch (.condition .ite v.ty)) m₂) ∧
    ((∀ m₁ v m₂, body.EndsIn w scope m (.done .normal m₁) →
      cond.EndsIn w scope m₁ (.done v m₂) → ∃ b, v = .bool b) →
      ∀ o, (Stmt.doWhile cond body).EndsIn w scope m o ↔
        (Stmt.unrolled cond body).EndsIn w scope m o) ∧
    (∀ o, body.EndsIn w scope m o → (∀ m₁, o ≠ .done .normal m₁) →
      (Stmt.doWhile cond body).EndsIn w scope m o) ∧
    ((∀ n, execStmt w n scope body m = .unfinished) →
      ∀ n, execStmt w n scope (.doWhile cond body) m = .unfinished) ∧
    ∀ m₁ m₂, body.EndsIn w scope m (.done .normal m₁) →
      cond.EndsIn w scope m₁ (.done (.bool true) m₂) →
      m₂.scopes = m₁.scopes ∧ m₂.calls = m₁.calls ∧
      ∀ o, (Stmt.doWhile cond body).EndsIn w scope m o ↔
        (Stmt.doWhile cond body).EndsIn w scope m₂ o := by
  refine ⟨?_, ?_, ?_, ?_, ?_⟩
  · intro m₁ v m₂ hbody hcond hv
    constructor
    · intro o
      rw [doWhile_endsIn_of_normal hbody, testLoop_endsIn_of_ne_bool hcond hv]
    · intro o
      rw [unrolled_endsIn_of_normal hbody, testLoop_endsIn_of_ne_bool hcond hv]
  · exact fun htest o => doWhile_endsIn_iff_unrolled hbreak htest
  · exact fun o hbody hnormal => doWhile_endsIn_of_not_normal hbreak hbody hnormal
  · exact fun hbody n => doWhile_unfinished hbody n
  · intro m₁ m₂ hbody hcond
    have hlive : m₁.scopes.Live scope := by
      obtain ⟨-, n, hn⟩ := hbody
      exact ((later_stable.keeps_execStmt w n scope body).of_done hn).live hl
    have hleft : m₂.scopes = m₁.scopes ∧ m₂.calls = m₁.calls := by
      obtain ⟨-, n, hn⟩ := hcond
      exact (evalExpr_leaves hlive w n cond).of_done hn
    refine ⟨hleft.1, hleft.2, fun o => ?_⟩
    rw [doWhile_endsIn_of_normal hbody, testLoop_endsIn_of_true hcond]

/-- A loop without end. -/
def spinning : Stmt := .doWhile (.bool true) (.seq [])

theorem spinning_unfinished (w : Setting) (n : Nat) (scope : ScopeId) (m : Machine) :
    execStmt w n scope spinning m = .unfinished := by
  induction n with
  | zero => rfl
  | succ n ih =>
    rw [spinning, execStmt_doWhile]
    cases n with
    | zero => rfl
    | succ n => exact ih

/-- Declare a variable in the surrounding scope, and write. -/
def declareOnce : Stmt := .seq [.declare "k" ⟨"int"⟩, .write [.text "once"]]

/-- After the variable was declared in the root. -/
def declaredOnce : Machine where
  scopes := Scopes.initial.put Scopes.root "k" ⟨.int, false, .untyped⟩
  calls := #[]
  console := ⟨[], [], ⟨"once \n".toUTF8.data, none, false⟩⟩

/-- Repeated, the body finds its own variable. -/
theorem doWhile_unrolls_declareOnce :
    ¬declareOnce.raises .brk ∧ atRoot.scopes.Live Scopes.root ∧
    declareOnce.EndsIn returning Scopes.root atRoot (.done .normal declaredOnce) ∧
    (∀ o, (Stmt.doWhile (.int 0) declareOnce).EndsIn returning Scopes.root atRoot o ↔
      o = .failed (.typeMismatch (.condition .doWhile .int)) declaredOnce) ∧
    (∀ o, (Stmt.unrolled (.int 0) declareOnce).EndsIn returning Scopes.root atRoot o ↔
      o = .failed (.typeMismatch (.condition .ite .int)) declaredOnce) ∧
    (∀ o, (Stmt.doWhile (.bool true) declareOnce).EndsIn returning Scopes.root atRoot o ↔
      (Stmt.unrolled (.bool true) declareOnce).EndsIn returning Scopes.root atRoot o) ∧
    (Stmt.doWhile (.bool true) declareOnce).EndsIn returning Scopes.root atRoot
      (.failed (.redeclaration "k") declaredOnce) ∧
    ∀ n, execStmt returning n Scopes.root (.doWhile (.bool true) spinning) atRoot =
      .unfinished := by
  have hbreak : ¬declareOnce.raises .brk := by decide
  have hlive : atRoot.scopes.Live Scopes.root := by decide
  have hlive' : declaredOnce.scopes.Live Scopes.root := by decide
  have hbody : declareOnce.EndsIn returning Scopes.root atRoot (.done .normal declaredOnce) :=
    .of_done (n := 4) (by cbv)
  have hagain : declareOnce.EndsIn returning Scopes.root declaredOnce
      (.failed (.redeclaration "k") declaredOnce) :=
    .of_failed (n := 4) (by cbv)
  have hint : (Expr.int 0).EndsIn returning Scopes.root declaredOnce
      (.done (.int 0) declaredOnce) :=
    .of_done (n := 1) rfl
  have htrue : (Expr.bool true).EndsIn returning Scopes.root declaredOnce
      (.done (.bool true) declaredOnce) :=
    .of_done (n := 1) rfl
  have htest : ∀ m₁ v m₂, declareOnce.EndsIn returning Scopes.root atRoot (.done .normal m₁) →
      (Expr.bool true).EndsIn returning Scopes.root m₁ (.done v m₂) → ∃ b, v = .bool b := by
    rintro m₁ v m₂ - ⟨-, n, hn⟩
    cases n with
    | zero => cases hn
    | succ n =>
      cases hn
      exact ⟨true, rfl⟩
  have hzero := doWhile_unrolls returning Scopes.root (.int 0) declareOnce atRoot hbreak hlive
  have hfails := hzero.1 declaredOnce (.int 0) declaredOnce hbody hint (by simp)
  obtain ⟨-, hsame, -, -, hon⟩ :=
    doWhile_unrolls returning Scopes.root (.bool true) declareOnce atRoot hbreak hlive
  obtain ⟨-, -, hfirst, -, -⟩ :=
    doWhile_unrolls returning Scopes.root (.bool true) declareOnce declaredOnce hbreak hlive'
  obtain ⟨-, -, -, hspin, -⟩ :=
    doWhile_unrolls returning Scopes.root (.bool true) spinning atRoot (by decide) hlive
  refine ⟨hbreak, hlive, hbody, hfails.1, hfails.2, hsame htest, ?_, ?_⟩
  · exact ((hon declaredOnce declaredOnce hbody htrue).2.2 _).2 (hfirst _ hagain (by simp))
  · exact hspin fun n => spinning_unfinished returning n Scopes.root atRoot

end MethodLang
