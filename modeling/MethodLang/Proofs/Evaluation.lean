import MethodLang.Proofs.Lexical.Runs
import MethodLang.Proofs.Lexical.Variables

/-!
# What evaluation changes and what it sees

* `evaluation_changes_no_variable`: evaluating an expression, calling a method with arguments and
  evaluating in a program leave the arena and the active calls exactly as they were, after an
  error too. Whatever methods do, they do in scopes that are released again.
* `evaluation_sees_own_variables`: what an expression gives and what it does to the console depend
  on what is seen of its own variables, on the console and on the number of active calls. A method
  sees nothing of its caller but the values of the arguments.
-/

namespace MethodLang

open Lexical (evalsAs_execsAs)

/-! ### What evaluation changes -/

theorem evalExpr_leaves {m : Machine} {scope : ScopeId} (h : m.scopes.Live scope) (w : Setting)
    (n : Nat) (e : Expr) :
    (evalExpr w n scope e m).Leaves fun m' => m'.scopes = m.scopes ∧ m'.calls = m.calls := by
  have hlexical := (evalsAs_execsAs w n).1 scope e m h m m.console rfl
  refine hlexical.leaves_related.mono fun m' hm' => ?_
  obtain ⟨c, rfl⟩ := hm'
  exact ⟨rfl, rfl⟩

/-- A call in an expression is a call from the scope of the expression. -/
theorem evalExpr_call (w : Setting) (n : Nat) (scope : ScopeId) (name : String)
    (args : List Expr) :
    evalExpr w (n + 1) scope (.call name args) = invoke w n scope name args := by
  rw [evalExpr, invoke]

/-- Evaluating an expression in a live scope changes no variable in any scope, opens and releases
no scope for good, and leaves the active calls as they are; neither does calling a method, nor
evaluating in a program. -/
theorem evaluation_changes_no_variable :
    (∀ (w : Setting) (n : Nat) (scope : ScopeId) (e : Expr) (m : Machine), m.scopes.Live scope →
      (evalExpr w n scope e m).Leaves fun m' => m'.scopes = m.scopes ∧ m'.calls = m.calls) ∧
    (∀ (w : Setting) (n : Nat) (scope : ScopeId) (name : String) (args : List Expr) (m : Machine),
      m.scopes.Live scope →
      (invoke w n scope name args m).Leaves fun m' =>
        m'.scopes = m.scopes ∧ m'.calls = m.calls) ∧
    ∀ (p : Program) (n : Nat) (e : Expr) (console : Console) (result : Except EvalError Value)
      (p' : Program) (console' : Console), p.scopes.Live Scopes.root →
      p.evaluate n e console = some (result, p', console') → p' = p := by
  refine ⟨fun w n scope e m h => evalExpr_leaves h w n e, fun w n scope name args m h => ?_, ?_⟩
  · rw [← evalExpr_call]
    exact evalExpr_leaves h w (n + 1) _
  · intro p n e console result p' console' h hresult
    have hleaves := evalExpr_leaves (m := ⟨p.scopes, #[], console⟩) h p.setting n e
    obtain ⟨m, ⟨hscopes, -⟩, hp', -⟩ := Program.leaves_of_after hleaves hresult
    rw [hp', hscopes]

/-- In the scope of `main`, which is called by `doubling` with two as its field. -/
def inMain : Machine where
  scopes := ((Scopes.initial.put Scopes.root "limit" ⟨.int, true, .int 2⟩).push (some Scopes.root))
  calls := #["main"]
  console := .ofInput [] none false

/-- The method fails halfway, in its own scope. -/
theorem evaluation_changes_no_variable_in_main :
    inMain.scopes.Live ⟨1⟩ ∧
    (evalExpr Program.doubling.setting 9 ⟨1⟩ (.call "twice" [.bool true]) inMain).Leaves
      (fun m' => m'.scopes = inMain.scopes ∧ m'.calls = inMain.calls) ∧
    (invoke Program.doubling.setting 9 ⟨1⟩ "twice" [.var "limit"] inMain).Leaves
      (fun m' => m'.scopes = inMain.scopes ∧ m'.calls = inMain.calls) ∧
    ∃ p', Program.doubling.evaluate 9 (.call "twice" [.int 4]) inMain.console =
      some (.ok (.int 8), p', inMain.console) ∧ p' = Program.doubling := by
  have hlive : inMain.scopes.Live ⟨1⟩ := by decide
  have hroot : Program.doubling.scopes.Live Scopes.root := by decide
  have heval : Program.doubling.evaluate 9 (.call "twice" [.int 4]) inMain.console =
      some (.ok (.int 8), Program.doubling, inMain.console) := by cbv
  refine ⟨hlive, evaluation_changes_no_variable.1 _ _ _ _ _ hlive,
    evaluation_changes_no_variable.2.1 _ _ _ _ _ _ hlive, _, heval, ?_⟩
  exact evaluation_changes_no_variable.2.2 _ _ _ _ _ _ _ hroot heval

/-! ### What evaluation sees -/

/-- What evaluation can tell of a name in a scope: whether it is declared, whether it has been
assigned, and its value. -/
def Scopes.seen? (s : Scopes) (scope : ScopeId) (name : String) : Option (Bool × Value) :=
  (s.resolve scope name).map fun (_, slot) => (slot.assigned, slot.value)

theorem Scopes.valueOf_eq_of_seen? {s t : Scopes} {scope scope' : ScopeId} {name : String}
    (h : s.seen? scope name = t.seen? scope' name) :
    s.valueOf scope name = t.valueOf scope' name := by
  rw [seen?, seen?] at h
  rw [valueOf, valueOf]
  cases hs : s.resolve scope name with
  | none => cases ht : t.resolve scope' name <;> simp_all
  | some found =>
    cases ht : t.resolve scope' name with
    | none => simp [hs, ht] at h
    | some found' =>
      simp only [hs, ht, Option.map_some, Option.some.injEq, Prod.mk.injEq] at h
      obtain ⟨hassigned, hvalue⟩ := h
      simp only [hassigned, hvalue]

theorem evalExpr_console_eq {m₁ m₂ : Machine} {s₁ s₂ : ScopeId} (h₁ : m₁.scopes.Live s₁)
    (h₂ : m₂.scopes.Live s₂) (hdepth : m₁.calls.size = m₂.calls.size)
    (hconsole : m₁.console = m₂.console) (w : Setting) (n : Nat) {e : Expr}
    (hvars : ∀ x ∈ e.vars, m₁.scopes.seen? s₁ x = m₂.scopes.seen? s₂ x) :
    (evalExpr w n s₁ e m₁).mapState Machine.console =
      (evalExpr w n s₂ e m₂).mapState Machine.console := by
  have hlexical := (evalsAs_execsAs w n).1
  have hagree : ∀ x ∈ e.vars, (m₁.scopes.env s₁).valueOf x = (m₂.scopes.env s₂).valueOf x := by
    intro x hx
    rw [← Scopes.valueOf_eq_env, ← Scopes.valueOf_eq_env, Scopes.valueOf_eq_of_seen? (hvars x hx)]
  rw [(hlexical s₁ e m₁ h₁ m₁ m₁.console rfl).mapState_eq fun m c hm => by rw [hm],
    (hlexical s₂ e m₂ h₂ m₂ m₂.console rfl).mapState_eq fun m c hm => by rw [hm],
    hdepth, hconsole, Lexical.evalExpr_congr w hagree]

/-- Two evaluations of an expression, in any two arenas, end alike: in the same value or the same
error with the same console, or neither ends, as soon as they start from the same console at the
same depth and see the same of the variables of the expression. For a call these are the variables
of the arguments; nothing else in the two arenas makes a difference to the method. -/
theorem evaluation_sees_own_variables (w : Setting) (n : Nat) (s₁ s₂ : ScopeId)
    (m₁ m₂ : Machine) (h₁ : m₁.scopes.Live s₁) (h₂ : m₂.scopes.Live s₂)
    (hdepth : m₁.calls.size = m₂.calls.size) (hconsole : m₁.console = m₂.console) :
    (∀ e : Expr, (∀ x ∈ e.vars, m₁.scopes.seen? s₁ x = m₂.scopes.seen? s₂ x) →
      (evalExpr w n s₁ e m₁).mapState Machine.console =
        (evalExpr w n s₂ e m₂).mapState Machine.console) ∧
    ∀ (name : String) (args : List Expr),
      (∀ arg ∈ args, ∀ x ∈ arg.vars, m₁.scopes.seen? s₁ x = m₂.scopes.seen? s₂ x) →
      (invoke w n s₁ name args m₁).mapState Machine.console =
        (invoke w n s₂ name args m₂).mapState Machine.console := by
  constructor
  · exact fun e hvars => evalExpr_console_eq h₁ h₂ hdepth hconsole w n hvars
  · intro name args hvars
    rw [← evalExpr_call, ← evalExpr_call]
    refine evalExpr_console_eq h₁ h₂ hdepth hconsole w (n + 1) fun x hx => ?_
    rw [Expr.vars, Expr.mem_allVars] at hx
    obtain ⟨arg, harg, hx⟩ := hx
    exact hvars arg harg x hx

/-- A machine in another method, with a variable of the same name and value. -/
def elsewhere : Machine where
  scopes := (Scopes.initial.push none).put ⟨1⟩ "limit" ⟨.int, true, .int 2⟩
  calls := #["other"]
  console := .ofInput [] none false

/-- A call with a variable as its argument. -/
def doubleLimit : Expr := .binary (.call "twice" [.var "limit"]) .sub (.var "limit")

theorem evaluation_sees_own_variables_in_main :
    inMain.scopes.Live ⟨1⟩ ∧ elsewhere.scopes.Live ⟨1⟩ ∧
    inMain.calls.size = elsewhere.calls.size ∧ inMain.console = elsewhere.console ∧
    (∀ x ∈ doubleLimit.vars, inMain.scopes.seen? ⟨1⟩ x = elsewhere.scopes.seen? ⟨1⟩ x) ∧
    (evalExpr Program.doubling.setting 9 ⟨1⟩ doubleLimit inMain).mapState Machine.console =
      (evalExpr Program.doubling.setting 9 ⟨1⟩ doubleLimit elsewhere).mapState Machine.console ∧
    (invoke Program.doubling.setting 9 ⟨1⟩ "twice" [.int 7] inMain).mapState Machine.console =
      (invoke Program.doubling.setting 9 ⟨1⟩ "twice" [.int 7] elsewhere).mapState
        Machine.console := by
  have hmain : inMain.scopes.Live ⟨1⟩ := by decide
  have helse : elsewhere.scopes.Live ⟨1⟩ := by decide
  have hvars : ∀ x ∈ doubleLimit.vars,
      inMain.scopes.seen? ⟨1⟩ x = elsewhere.scopes.seen? ⟨1⟩ x := by
    intro x hx
    obtain rfl : x = "limit" := by simpa [doubleLimit, Expr.vars, Expr.allVars] using hx
    cbv
  have hsame := evaluation_sees_own_variables Program.doubling.setting 9 ⟨1⟩ ⟨1⟩ inMain elsewhere
    hmain helse rfl rfl
  refine ⟨hmain, helse, rfl, rfl, hvars, hsame.1 doubleLimit hvars, hsame.2 "twice" [.int 7] ?_⟩
  simp [Expr.int, Expr.vars]

end MethodLang
