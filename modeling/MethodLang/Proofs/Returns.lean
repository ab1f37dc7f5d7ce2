import Mathlib
import MethodLang.Proofs.Endings
import MethodLang.Proofs.Signals
import MethodLang.Proofs.Tasks

/-!
# Returns

A return looks for the variable of the innermost method and finds it, in whatever blocks,
conditionals and loops it stands. So it only signals, and never fails; and the return that stands at
the end of every body that can be called makes no difference, but for the step that it takes.

* `execStmt_ret_of_seesResult` says that a return only signals where it sees the result;
* `Setting.SameCalls` relates settings whose calls do the same as soon as evaluation does, and
  `SameCalls.refines` says that with a step more the second then does what the first does;
* `Program.returns_never_fail` puts this together.
-/

namespace MethodLang

open MethodLang.Action (Congruence)

variable {w w' : Setting} {n : Nat} {scope callee : ScopeId} {m : Machine}

/-- Where it sees the result, a return only signals; in the fields there is no result to see. -/
theorem execStmt_ret_of_seesResult (h : m.SeesResult scope) :
    execStmt w (n + 1) scope .ret m = .done .ret m := by
  cases hcall : m.calls.back? with
  | none =>
    rw [execStmt, findResult, bind_assoc, Action.innermost_bind_apply, hcall]
    rfl
  | some name => exact execStmt_ret_of_isVisible hcall (h name hcall)

/-! ### Returns at the end -/

/-- The method with a return after its last statement, such as `Method.ofDecl` makes of every
declaration. -/
def Method.withReturn (method : Method) : Method := { method with body := method.body ++ [.ret] }

/-- The setting with a return after the last statement of every method. -/
def Setting.withReturns (w : Setting) : Setting := { w with methods := w.methods.map .withReturn }

theorem Setting.method?_withReturns (w : Setting) (name : String) :
    w.withReturns.method? name = (w.method? name).map .withReturn := by
  rw [method?, method?, withReturns, List.find?_map]
  rfl

/-- A list of statements does the same with a return at its end, but for the signal. -/
theorem forget_execAll_append_ret (h : m.SeesResult scope) (body : List Stmt) :
    (execAll (execStmt w (n + 1) scope) (body ++ [.ret]) m).forget =
      (execAll (execStmt w (n + 1) scope) body m).forget := by
  rw [execAll_append, execAll_singleton]
  cases hbody : execAll (execStmt w (n + 1) scope) body m with
  | done signal m' =>
    rw [Action.bind_of_done hbody]
    split
    · rw [execStmt_ret_of_seesResult (seesResult_of_execAll h hbody)]
      rfl
    · rfl
  | failed e m' => rw [Action.bind_of_failed hbody]
  | unfinished => rw [Action.bind_of_unfinished hbody]

theorem runMethod_withReturn (method : Method) (hl : m.scopes.Live callee) :
    runMethod (execStmt w (n + 1)) callee method.withReturn m =
      runMethod (execStmt w (n + 1)) callee method m := by
  have hname : method.withReturn.name = method.name := rfl
  have hreturns : method.withReturn.returns = method.returns := rfl
  refine runMethod_congr hname hreturns ?_ hl
  intro opened hcall hresult
  apply forget_execAll_append_ret
  intro name hname
  obtain rfl : method.name = name := Option.some.inj (hcall.symm.trans hname)
  exact hresult

/-! ### Settings with the same calls -/

/-- Calls do the same under both settings, if what is evaluated and executed in the course of them
does, and has a step. -/
def Setting.SameCalls (w w' : Setting) : Prop :=
  ∀ (u : Setting) (n : Nat) (scope : ScopeId) (parent : Option ScopeId) (name : String)
    (args : List Expr),
    callMethod w (evalExpr u (n + 1) scope) (execStmt u (n + 1)) parent name args =
      callMethod w' (evalExpr u (n + 1) scope) (execStmt u (n + 1)) parent name args

theorem Setting.withReturns_sameCalls (w : Setting) : w.withReturns.SameCalls w := by
  intro u n scope parent name args
  have hlimit : w.withReturns.limit = w.limit := rfl
  apply callMethod_congr hlimit
  rw [method?_withReturns]
  cases w.method? name with
  | none => exact .none
  | some method => exact .some ⟨rfl, fun callee m hl => runMethod_withReturn method hl⟩

theorem Setting.SameCalls.symm (h : w.SameCalls w') : w'.SameCalls w :=
  fun u n scope parent name args => (h u n scope parent name args).symm

/-- What evaluation does to a machine keeps refinement. -/
theorem Action.refines_congruence : Congruence fun _ x y => x.Refines y where
  ask _ := .refl _
  bind h hf := h.bind hf
  declare _ _ _ := .refl _
  assign _ _ _ := .refl _
  readInt := .refl _
  put _ := .refl _
  inScope _ _ _ h := .inScope h

namespace Setting.SameCalls

variable (h : w.SameCalls w')

include h

/-- With a step more, a call under the second setting does what it does under the first. -/
theorem callMethod_refines
    (heval : ∀ scope e, (evalExpr w n scope e).Refines (evalExpr w' (n + 1) scope e))
    (hexec : ∀ scope st, (execStmt w n scope st).Refines (execStmt w' (n + 1) scope st))
    (scope : ScopeId) (parent : Option ScopeId) (name : String) (args : List Expr) :
    (callMethod w (evalExpr w n scope) (execStmt w n) parent name args).Refines
      (callMethod w' (evalExpr w' (n + 1) scope) (execStmt w' (n + 1)) parent name args) := by
  rw [← h]
  exact MethodLang.callMethod_refines w (heval scope) hexec parent name args

/-- With a step more, the second setting does what the first does. -/
theorem refines (n : Nat) :
    (∀ scope e, (evalExpr w n scope e).Refines (evalExpr w' (n + 1) scope e)) ∧
      ∀ scope st, (execStmt w n scope st).Refines (execStmt w' (n + 1) scope st) := by
  induction n with
  | zero =>
    exact ⟨fun _ _ => Action.unfinished_refines _, fun _ _ => Action.unfinished_refines _⟩
  | succ n ih =>
    obtain ⟨heval, hexec⟩ := ih
    constructor
    · intro scope e
      apply Action.refines_congruence.evalExpr_succ scope e fun part _ => heval scope part
      exact fun name args _ => h.callMethod_refines heval hexec scope none name args
    · intro scope st
      apply Action.refines_congruence.execStmt_succ scope st (fun e _ => heval scope e)
        fun part _ scope => hexec scope part
      exact fun _ _ _ => hexec scope st

end Setting.SameCalls

/-! ### Programs -/

namespace Program

variable {p p' : Program} {console console' : Console} {ending : Ending} {e : Expr}
  {result : Except EvalError Value} {scopes : Scopes}

/-- With steps enough the expression has this result, and leaves these scopes and this console. -/
def EvaluatesTo (p : Program) (e : Expr) (console : Console) (result : Except EvalError Value)
    (scopes : Scopes) (console' : Console) : Prop :=
  ∃ n, p.evaluate n e console = some (result, { p with scopes }, console')

theorem EndsIn.of_sameCalls (hcalls : p.setting.SameCalls p'.setting)
    (hfields : p'.fields = p.fields) (hentry : p'.entry = p.entry)
    (hscopes : p'.scopes = p.scopes) (h : p.EndsIn console ending) :
    p'.EndsIn console ending := by
  obtain ⟨n, hn⟩ := h
  refine ⟨n + 1, ?_⟩
  cases he : p.entry with
  | none =>
    rw [ending?_of_no_entry he] at hn
    rw [ending?_of_no_entry (hentry.trans he), hscopes, hn]
  | some entry =>
    rw [ending?_of_entry he] at hn
    rw [ending?_of_entry (hentry.trans he)]
    obtain ⟨heval, hexec⟩ := hcalls.refines n
    have haction : (p.action n entry).Refines (p'.action (n + 1) entry) := by
      rw [action, action, hfields]
      refine (execAll_refines (hexec Scopes.root) p.fields).bind fun _ => ?_
      exact hcalls.callMethod_refines heval hexec Scopes.root (some Scopes.root) entry []
    have hends : p.action n entry ⟨.initial, #[], console⟩ ≠ .unfinished := by
      intro hu
      rw [hu] at hn
      cases hn
    rw [haction _ hends, hn]

theorem EvaluatesTo.of_sameCalls (hcalls : p.setting.SameCalls p'.setting)
    (hscopes : p'.scopes = p.scopes) (h : p.EvaluatesTo e console result scopes console') :
    p'.EvaluatesTo e console result scopes console' := by
  obtain ⟨n, hn⟩ := h
  refine ⟨n + 1, ?_⟩
  have hends : evalExpr p.setting n Scopes.root e ⟨p.scopes, #[], console⟩ ≠ .unfinished := by
    intro hu
    rw [evaluate, hu] at hn
    cases hn
  rw [evaluate] at hn ⊢
  rw [hscopes, (hcalls.refines n).1 _ _ _ hends]
  generalize evalExpr p.setting n Scopes.root e _ = x at hn ⊢
  cases x with
  | done _ m | failed _ m =>
    simp only [after, Option.some.injEq, Prod.mk.injEq] at hn ⊢
    obtain ⟨hresult, hprogram, hconsole⟩ := hn
    have hleft : m.scopes = scopes := congrArg Program.scopes hprogram
    exact ⟨hresult, by rw [hleft], hconsole⟩
  | unfinished => cases hn

/-- No return fails: wherever a return is executed, in the course of a run or of the evaluation of
an expression, it only signals. And with a return at the end of every method, programs run as they
do without it, and expressions have the same results: whatever ends in the one ends alike in the
other. -/
theorem returns_never_fail (p : Program) :
    (∀ n console k scope m, p.Does n console (.exec (k + 1) scope .ret m) →
      execStmt p.setting (k + 1) scope .ret m = .done .ret m) ∧
    ∀ methods : List Method,
      (∀ console ending, (p.withMethods (methods.map .withReturn)).EndsIn console ending ↔
        (p.withMethods methods).EndsIn console ending) ∧
      ∀ e console result scopes console',
        (p.withMethods (methods.map .withReturn)).EvaluatesTo e console result scopes console' ↔
          (p.withMethods methods).EvaluatesTo e console result scopes console' := by
  constructor
  · intro n console k scope m hdoes
    exact execStmt_ret_of_seesResult hdoes.seesResult
  · intro methods
    have hcalls : (p.withMethods (methods.map .withReturn)).setting.SameCalls
        (p.withMethods methods).setting :=
      Setting.withReturns_sameCalls (p.withMethods methods).setting
    constructor
    · intro console ending
      exact ⟨.of_sameCalls hcalls rfl rfl rfl, .of_sameCalls hcalls.symm rfl rfl rfl⟩
    · intro e console result scopes console'
      exact ⟨.of_sameCalls hcalls rfl, .of_sameCalls hcalls.symm rfl⟩

/-- Return from a block in a loop. -/
def quit : Method :=
  ⟨"quit", .undefined, [], [.doWhile (.bool true) (.block [.ite (.bool true) .ret none])]⟩

/-- Call the method that returns, and write. -/
def callQuit : Method :=
  ⟨"main", .undefined, [], [.invoke (.call "quit" []), .write [.text "after"]]⟩

/-- Return from the fields, and then call the entry method. -/
def quitting : Program where
  name := "quitting"
  fields := [.ret, .write [.text "never"]]
  methods := [quit, callQuit].map .withReturn
  entry := some "main"
  limit := defaultLimit
  scopes := .initial

/-- Nothing to read, and nothing written. -/
def blankConsole : Console := .ofInput [] none false

/-- In the scope of the entry method of `quitting`. -/
def inQuittingMain : Machine where
  scopes := ⟨#[⟨none, .empty⟩, ⟨some ⟨0⟩, ⟨[("main", ⟨.int, false, .untyped⟩)]⟩⟩]⟩
  calls := #["main"]
  console := blankConsole

/-- In the scope of the method that returns. -/
def inQuit : Machine where
  scopes := inQuittingMain.scopes.push none |>.put ⟨2⟩ "quit" ⟨.int, false, .untyped⟩
  calls := #["main", "quit"]
  console := blankConsole

/-- In the block from which that method returns. -/
def inQuitBlock : Machine := { inQuit with scopes := inQuit.scopes.push (some ⟨2⟩) }

/-- How `quitting` ends. -/
def quitted : Ending where
  result := .ok ()
  scopes := .initial
  console := ⟨[], [], ⟨"after \n".toUTF8.data, none, false⟩⟩

/-- The return is executed in a block in a loop, in a method that the entry method calls. -/
theorem quitting_does_ret : quitting.Does 9 blankConsole (.exec 4 ⟨3⟩ .ret inQuitBlock) := by
  have hmain : quitting.Starts 9 blankConsole
      (.exec 9 ⟨1⟩ (.invoke (.call "quit" [])) inQuittingMain) :=
    .entry rfl rfl (.statement rfl (by decide) rfl (by cbv) (List.nil_append _).symm rfl)
  have hquit : Begins quitting.setting (.eval 8 ⟨1⟩ (.call "quit" []) inQuittingMain)
      (.exec 7 ⟨2⟩ (.doWhile (.bool true) (.block [.ite (.bool true) .ret none])) inQuit) :=
    .call (.statement rfl (by decide) rfl (by cbv) (List.nil_append _).symm rfl)
  have hblock : Begins quitting.setting
      (.exec 6 ⟨2⟩ (.block ([] ++ .ite (.bool true) .ret none :: [])) inQuit)
      (.exec 5 ⟨3⟩ (.ite (.bool true) .ret none) inQuitBlock) :=
    .block rfl
  refine ⟨_, hmain, ?_⟩
  exact .tail (.tail (.tail (.tail (.single .invoke) hquit) .loopBody) hblock) (.iteYes rfl)

theorem quitting_never_fails :
    quitting.Does 9 blankConsole (.exec 4 ⟨3⟩ .ret inQuitBlock) ∧
    execStmt quitting.setting 4 ⟨3⟩ .ret inQuitBlock = .done .ret inQuitBlock ∧
    (quitting.withMethods [quit, callQuit]).EndsIn blankConsole quitted ∧
    quitting.EndsIn blankConsole quitted := by
  obtain ⟨hret, hmethods⟩ := returns_never_fail quitting
  have hbare : (quitting.withMethods [quit, callQuit]).EndsIn blankConsole quitted := ⟨10, by cbv⟩
  exact ⟨quitting_does_ret, hret _ _ _ _ _ quitting_does_ret, hbare,
    ((hmethods [quit, callQuit]).1 _ _).2 hbare⟩

end Program

end MethodLang
