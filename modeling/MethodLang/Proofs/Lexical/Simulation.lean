import MethodLang.Proofs.Alike
import MethodLang.Proofs.Lexical.Basic
import MethodLang.Proofs.Scopes.Agree

/-!
# The arena acts as an environment

A machine in a scope acts alike with a lexical state in the environment of that scope.

* `EvalsAs`: an expression has the lexical result and console, and changes nothing else;
* `ExecsAs`: a statement changes bindings along the chain of its scope alone, in the way that the
  lexical semantics changes the environment;
* `evalsAs_execsAs`: all expressions and statements do, by induction on the steps.

The scopes of callers lie in the arena below the scope of a method, and the scope of a method lies
above its caller's while the arguments are evaluated; but each is off the chain of the other.
-/

namespace MethodLang

open Scopes (AgreeOff)

/-! ### Variables -/

namespace Scopes

variable {s : Scopes} {scope : ScopeId}

theorem slot?_env_eq_none {name : String} (h : s.resolve scope name = none) :
    (s.env scope).slot? name = none := by
  rw [← resolve_slot, h, Option.map_none]

theorem slot?_env_eq_some {name : String} {holder : ScopeId} {slot : Slot}
    (h : s.resolve scope name = some (holder, slot)) : (s.env scope).slot? name = some slot := by
  rw [← resolve_slot, h, Option.map_some]

theorem valueOf_eq_env (s : Scopes) (scope : ScopeId) (name : String) :
    s.valueOf scope name = (s.env scope).valueOf name := by
  rw [valueOf, Env.valueOf]
  cases h : s.resolve scope name with
  | none => rw [slot?_env_eq_none h]
  | some found => rw [slot?_env_eq_some h]

theorem lookup_eq_env (s : Scopes) (scope : ScopeId) (name : String) :
    s.lookup scope name = (s.env scope).lookup name := by
  rw [lookup, slot, Env.lookup]
  cases h : s.resolve scope name with
  | none => rw [slot?_env_eq_none h]; rfl
  | some found => rw [slot?_env_eq_some h]; rfl

/-- An update of the arena does to the environment of a scope what `g` does, and nothing off the
chain of the scope. -/
inductive Updates (s : Scopes) (scope : ScopeId) :
    Except EvalError Scopes → Except EvalError Env → Prop
  | ok {t : Scopes} (h : AgreeOff (s.chain scope) s t) : Updates s scope (.ok t) (.ok (t.env scope))
  | error (e : EvalError) : Updates s scope (.error e) (.error e)

theorem updates_introduce (h : s.Live scope) (name : String) (slot : Slot) :
    s.Updates scope
      (if s.isVisible scope name then .error (.redeclaration name)
        else .ok (s.put scope name slot))
      ((s.env scope).introduce name slot) := by
  rw [Env.introduce, isVisible]
  cases hr : s.resolve scope name with
  | none =>
    rw [slot?_env_eq_none hr, ← env_put_self h]
    exact .ok (agreeOff_put (mem_chain_self h) s name slot)
  | some found =>
    rw [slot?_env_eq_some hr]
    exact .error _

theorem updates_declare (h : s.Live scope) (name : String) (ty : Ty) :
    s.Updates scope (s.declare scope name ty) ((s.env scope).declare name ty) := by
  rw [declare_eq]
  exact updates_introduce h name ⟨ty, false, .untyped⟩

theorem updates_declareAndAssign (h : s.Live scope) (name : String) (value : Value) :
    s.Updates scope (s.declareAndAssign scope name value)
      ((s.env scope).declareAndAssign name value) := by
  rw [declareAndAssign_of_lt h]
  exact updates_introduce h name ⟨value.ty, true, value⟩

theorem updates_assign (h : s.Live scope) (name : String) (value : Value) :
    s.Updates scope (s.assign scope name value) ((s.env scope).assign name value) := by
  rw [assign_eq, Env.assign]
  cases hr : s.resolve scope name with
  | none =>
    rw [slot?_env_eq_none hr]
    exact .error _
  | some found =>
    obtain ⟨holder, slot⟩ := found
    rw [slot?_env_eq_some hr]
    simp only
    split
    · rw [← env_put_holder h hr]
      exact .ok (agreeOff_put (mem_chain_of_resolve hr) s name _)
    · exact .error _

end Scopes

namespace Lexical

/-! ### Machines and lexical states -/

/-- The machine `m` is in the scope `parent`, if there is one, with the environment and the console
of `l`; the calls `active`, and all of the arena `s` off the chain of the scope, are as they
were. -/
structure Sees (s : Scopes) (active : Array String) (parent : Option ScopeId) (m : Machine)
    (l : State) : Prop where
  agree : AgreeOff (s.above parent) s m.scopes
  calls : m.calls = active
  env : m.scopes.envAbove parent = l.env
  console : m.console = l.console

variable {s : Scopes} {active : Array String} {scope : ScopeId} {parent : Option ScopeId}
  {α : Type}

theorem Sees.self (m : Machine) (parent : Option ScopeId) :
    Sees m.scopes m.calls parent m ⟨m.scopes.envAbove parent, m.console⟩ :=
  ⟨.refl _ _, rfl, rfl, rfl⟩

/-- With no scope to act in, only the console can have changed. -/
theorem Sees.eq_of_none {m m' : Machine} {l : State} (h : Sees m.scopes m.calls none m' l) :
    m' = { m with console := l.console } := by
  obtain ⟨agree, calls, -, console⟩ := h
  obtain ⟨scopes', calls', console'⟩ := m'
  simp only at agree calls console ⊢
  rw [agree.eq, calls, console]

theorem Sees.withConsole {m : Machine} {l : State} (h : Sees s active parent m l) (c : Console) :
    Sees s active parent { m with console := c } { l with console := c } :=
  ⟨h.agree, h.calls, h.env, rfl⟩

theorem alike_onConsole (f : Console → Except ConsoleError α × Console) :
    Action.Alike (Sees s active parent) (.onConsole f) (onConsole f) := by
  intro m l h
  simp only [Action.onConsole, onConsole, h.console]
  rcases f l.console with ⟨e | a, c⟩
  · exact .failed (h.withConsole c)
  · exact .done (h.withConsole c)

theorem alike_query {f : Scopes → Except EvalError α} {g : Env → Except EvalError α}
    (hfg : ∀ t : Scopes, f t = g (t.env scope)) :
    Action.Alike (Sees s active (some scope)) (.query f) (query g) := by
  intro m l h
  simp only [Action.query, query]
  rw [hfg, ← Scopes.envAbove_some, h.env]
  cases g l.env with
  | ok a => exact .done h
  | error e => exact .failed h

theorem alike_update {u : Scopes.Update} {g : Env → Except EvalError Env} (hu : u.Atomic)
    (hl : s.Live scope)
    (hug : ∀ t : Scopes, t.Live scope → t.Updates scope (u.result t) (g (t.env scope))) :
    Action.Alike (Sees s active (some scope)) (.update u) (update g) := by
  intro m l h
  have hup := hug m.scopes (h.agree.live_iff.2 hl)
  rw [← Scopes.envAbove_some, h.env] at hup
  rw [update]
  generalize hresult : u.result m.scopes = updated at hup
  generalize g l.env = updated' at hup ⊢
  cases hup with
  | ok hagree =>
    rw [h.agree.chain] at hagree
    rw [Action.update_of_ok hresult]
    exact .done ⟨h.agree.trans hagree, h.calls, rfl, h.console⟩
  | error e =>
    rw [Action.update_of_error hu hresult]
    exact .failed h

theorem alike_declare (hl : s.Live scope) (name : String) (ty : Ty) :
    Action.Alike (Sees s active (some scope)) (.update (.declare scope name ty))
      (update (·.declare name ty)) :=
  alike_update (.declare scope name ty) hl fun _ ht => Scopes.updates_declare ht name ty

theorem alike_declareAndAssign (hl : s.Live scope) (name : String) (value : Value) :
    Action.Alike (Sees s active (some scope)) (.update (.declareAndAssign scope name value))
      (update (·.declareAndAssign name value)) :=
  alike_update (.declareAndAssign scope name value) hl fun _ ht =>
    Scopes.updates_declareAndAssign ht name value

theorem alike_assign (hl : s.Live scope) (name : String) (value : Value) :
    Action.Alike (Sees s active (some scope)) (.update (.assign scope name value))
      (update (·.assign name value)) :=
  alike_update (.assign scope name value) hl fun _ ht => Scopes.updates_assign ht name value

/-- Acting in a new scope is acting with empty bindings in front. -/
theorem alike_inScope {body : ScopeId → Action Machine α} {body' : Action State α}
    (hs : 0 < s.size) (hp : ∀ p ∈ parent, s.Live p)
    (h : Action.Alike (Sees (s.push parent) active (some s.next)) (body s.next) body') :
    Action.Alike (Sees s active parent) (.inScope parent body) (inFront body') := by
  intro m l hml
  have hopen : Sees (s.push parent) active (some s.next)
      { m with scopes := m.scopes.push parent } { l with env := .empty :: l.env } := by
    refine ⟨?_, hml.calls, ?_, hml.console⟩
    · rw [Scopes.above_some, Scopes.chain_push_next hp]
      exact hml.agree.push
    · rw [Scopes.envAbove_some, ← hml.agree.next,
        Scopes.env_push_next fun p hmem => hml.agree.live_iff.2 (hp p hmem), hml.env]
  have hclose : ∀ m' l', Sees (s.push parent) active (some s.next) m' l' →
      Sees s active parent { m' with scopes := m'.scopes.release s.next }
        { l' with env := l'.env.tail } := by
    intro m' l' h'
    have hagree := h'.agree
    rw [Scopes.above_some, Scopes.chain_push_next hp] at hagree
    refine ⟨hagree.release hs, h'.calls, ?_, h'.console⟩
    rw [hagree.envAbove_release hs hp, ← Scopes.envAbove_some, h'.env]
  rw [Action.inScope_apply, inFront, hml.agree.next]
  exact (h _ _ hopen).map hclose

/-- Entering a method and leaving it again. -/
theorem alike_inCall {x : Action Machine α} {y : Action State α} (name : String)
    (h : Action.Alike (Sees s (active.push name) parent) x y) :
    Action.Alike (Sees s active parent) (.inCall name x) y := by
  intro m l hml
  have henter : Sees s (active.push name) parent { m with calls := m.calls.push name } l :=
    ⟨hml.agree, by rw [hml.calls], hml.env, hml.console⟩
  have hleave : ∀ m' l', Sees s (active.push name) parent m' l' →
      Sees s active parent { m' with calls := m'.calls.pop } l' := fun m' l' h' =>
    ⟨h'.agree, by rw [h'.calls, Array.pop_push], h'.env, h'.console⟩
  rw [Action.inCall_apply]
  exact (h _ _ henter).map_left hleave

/-! ### Lists inside statements and calls -/

theorem alike_bindArgs (hl : s.Live scope) {eval : Expr → Action Machine Value}
    {eval' : Expr → Action Console Value} (miscount : EvalError) {args : List Expr}
    (heval : ∀ arg ∈ args, Action.Alike (Sees s active (some scope)) (eval arg)
      (evaluating fun _ => eval' arg)) (params : List String) :
    Action.Alike (Sees s active (some scope)) (MethodLang.bindArgs eval scope miscount params args)
      (bindArgs eval' miscount params args) := by
  induction args generalizing params with
  | nil =>
    cases params with
    | nil => exact .pure _
    | cons => exact .fail _
  | cons arg args ih =>
    have harg := heval arg List.mem_cons_self
    cases params with
    | nil => exact harg.bind fun _ => .fail _
    | cons param params =>
      refine harg.bind fun value => ?_
      refine (alike_declareAndAssign hl param value).bind ?_
      exact fun _ => ih (fun arg harg => heval arg (List.mem_cons_of_mem _ harg)) params

theorem alike_writeAll {eval : Expr → Action Machine Value}
    {eval' : Env → Expr → Action Console Value}
    (heval : ∀ e, Action.Alike (Sees s active parent) (eval e) (evaluating (eval' · e)))
    (items : List WriteItem) :
    Action.Alike (Sees s active parent) (MethodLang.writeAll eval items)
      (writeAll eval' items) := by
  induction items with
  | nil => exact .pure _
  | cons item rest ih =>
    cases item with
    | text content => exact (alike_onConsole _).bind fun _ => ih
    | expr value =>
      refine (heval value).bind fun v => ?_
      cases v.render? with
      | none => exact .fail _
      | some content => exact (alike_onConsole _).bind fun _ => ih

theorem alike_readAll (hl : s.Live scope) (targets : List String) :
    Action.Alike (Sees s active (some scope)) (MethodLang.readAll scope targets)
      (readAll targets) := by
  induction targets with
  | nil => exact .pure _
  | cons target rest ih =>
    refine (alike_onConsole _).bind fun n => ?_
    exact (alike_assign hl target (.int n)).bind fun _ => ih

/-! ### Calls -/

/-- Where the machine stands, as the lexical semantics knows it. -/
def activation (active : Array String) : Activation := ⟨active.size, active.back?⟩

theorem activation_push (active : Array String) (name : String) :
    activation (active.push name) = ⟨active.size + 1, some name⟩ := by
  simp [activation]

/-- The machine `m`, but for its console. -/
def OnConsole (m m' : Machine) (c : Console) : Prop := m' = { m with console := c }

/-- Evaluation in a live scope of an arena acts alike with evaluation in its environment, and
changes the console alone. -/
def EvalsAs (eval : ScopeId → Expr → Action Machine Value)
    (eval' : Nat → Env → Expr → Action Console Value) : Prop :=
  ∀ scope e (m : Machine), m.scopes.Live scope →
    Action.Alike (OnConsole m) (eval scope e) (eval' m.calls.size (m.scopes.env scope) e)

/-- Execution in a live scope of an arena acts alike with execution in its environment. -/
def ExecsAs (exec : ScopeId → Stmt → Action Machine Signal)
    (exec' : Activation → Stmt → Action State Signal) : Prop :=
  ∀ s active scope st, s.Live scope →
    Action.Alike (Sees s active (some scope)) (exec scope st) (exec' (activation active) st)

/-- Evaluation for a statement: in the scope where the statement stands. -/
theorem EvalsAs.alike {eval : ScopeId → Expr → Action Machine Value}
    {eval' : Nat → Env → Expr → Action Console Value} (h : EvalsAs eval eval')
    (hl : s.Live scope) (e : Expr) :
    Action.Alike (Sees s active (some scope)) (eval scope e)
      (evaluating fun env => eval' active.size env e) := by
  intro m l hml
  have heval := h scope e m (hml.agree.live_iff.2 hl) m m.console rfl
  rw [hml.calls, hml.console, ← Scopes.envAbove_some, hml.env] at heval
  exact heval.map_right fun _ c hc => hc ▸ hml.withConsole c

/-- Evaluation for an argument: in the caller's scope, while the scope of the method is open and
has some of the parameters. -/
theorem EvalsAs.alike_arg {eval : ScopeId → Expr → Action Machine Value}
    {eval' : Nat → Env → Expr → Action Console Value} (h : EvalsAs eval eval')
    (hl : s.Live scope) (e : Expr) :
    Action.Alike (Sees (s.push none) active (some s.next)) (eval scope e)
      (evaluating fun _ => eval' active.size (s.env scope) e) := by
  intro m l hml
  have hext : s.Extends m.scopes := by
    intro id hid
    have hagree := hml.agree
    rw [Scopes.above_some, Scopes.chain_push_next (by simp)] at hagree
    exact hagree.frame?_of_push hid List.not_mem_nil
  have heval := h scope e m (hext.live hl) m m.console rfl
  rw [hml.calls, hml.console, hext.env hl] at heval
  exact heval.map_right fun _ c hc => hc ▸ hml.withConsole c

theorem alike_findResult (scope : ScopeId) :
    Action.Alike (Sees s active (some scope)) (MethodLang.findResult scope)
      (findResult (activation active)) := by
  intro m l hml
  simp only [MethodLang.findResult, Action.innermost_bind_apply, findResult, activation, hml.calls]
  cases active.back? with
  | none => exact .done hml
  | some name =>
    have hquery : Action.Alike (Sees s active (some scope)) (.query (·.lookup scope name))
        (query (·.lookup name)) := alike_query fun t => t.lookup_eq_env scope name
    exact (hquery.bind fun _ => .pure _) m l hml

theorem alike_runMethod (hl : s.Live scope) {exec : ScopeId → Stmt → Action Machine Signal}
    {exec' : Activation → Stmt → Action State Signal} (hexec : ExecsAs exec exec') (m : Method) :
    Action.Alike (Sees s active (some scope)) (MethodLang.runMethod exec scope m)
      (runMethod (exec' ⟨active.size + 1, some m.name⟩) m) := by
  refine (alike_declare hl m.name .int).bind fun _ => ?_
  refine Action.Alike.bind (alike_inCall m.name (.execAll m.body fun st _ => ?_)) fun _ => ?_
  · rw [← activation_push]
    exact hexec s _ scope st hl
  · split
    · exact .pure _
    · exact alike_query fun t => t.valueOf_eq_env scope m.name

theorem alike_callMethod (w : Setting) (hs : 0 < s.size) (hp : ∀ p ∈ parent, s.Live p)
    {eval : Expr → Action Machine Value} {eval' : Expr → Action Console Value}
    {exec : ScopeId → Stmt → Action Machine Signal}
    {exec' : Activation → Stmt → Action State Signal} (name : String) (args : List Expr)
    (heval : ∀ arg ∈ args, Action.Alike (Sees (s.push parent) active (some s.next)) (eval arg)
      (evaluating fun _ => eval' arg)) (hexec : ExecsAs exec exec') :
    Action.Alike (Sees s active parent) (MethodLang.callMethod w eval exec parent name args)
      (callMethod w eval' exec' active.size name args) := by
  rw [MethodLang.callMethod, callMethod]
  cases w.method? name with
  | none => exact .fail _
  | some m =>
    intro machine l hml
    simp only [Action.depth_bind_apply, hml.calls]
    split
    · exact .failed hml
    · refine alike_inScope hs hp ?_ machine l hml
      refine (alike_bindArgs (Scopes.live_push_next s parent) _ heval m.params).bind fun _ => ?_
      exact alike_runMethod (Scopes.live_push_next s parent) hexec m

/-! ### Expressions and statements -/

theorem evalsAs_succ {w : Setting} {n : Nat}
    (heval : EvalsAs (MethodLang.evalExpr w n) (evalExpr w n))
    (hexec : ExecsAs (MethodLang.execStmt w n) (execStmt w n)) :
    EvalsAs (MethodLang.evalExpr w (n + 1)) (evalExpr w (n + 1)) := by
  intro scope e m hl
  cases e with
  | lit l => exact .pure _
  | var name =>
    rintro _ c rfl
    rw [MethodLang.evalExpr, evalExpr, Action.query, Scopes.valueOf_eq_env]
    cases (m.scopes.env scope).valueOf name with
    | ok v => exact .done rfl
    | error e => exact .failed rfl
  | binary lhs op rhs =>
    rw [MethodLang.evalExpr, evalExpr]
    exact (heval scope lhs m hl).bind fun l => (heval scope rhs m hl).bind fun r => .ofExcept _
  | call name args =>
    rintro _ c rfl
    rw [MethodLang.evalExpr, evalExpr]
    have hself := Sees.self { m with console := c } none
    have hcall := alike_callMethod w hl.size_pos (by simp) name args
      (fun arg _ => heval.alike_arg hl arg) hexec _ _ hself
    exact hcall.map_right fun _ _ h => h.eq_of_none

theorem execsAs_succ {w : Setting} {n : Nat}
    (heval : EvalsAs (MethodLang.evalExpr w n) (evalExpr w n))
    (hexec : ExecsAs (MethodLang.execStmt w n) (execStmt w n)) :
    ExecsAs (MethodLang.execStmt w (n + 1)) (execStmt w (n + 1)) := by
  intro s active scope st hl
  have hvalue : ∀ e, Action.Alike (Sees s active (some scope)) (MethodLang.evalExpr w n scope e)
      (evaluating fun env => evalExpr w n (activation active).depth env e) := heval.alike hl
  cases st with
  | declare name ty =>
    rw [MethodLang.execStmt, execStmt]
    exact (alike_declare hl name _).bind fun _ => .pure _
  | assign name value =>
    rw [MethodLang.execStmt, execStmt]
    refine (hvalue value).bind fun v => ?_
    exact (alike_assign hl name v).bind fun _ => .pure _
  | block body =>
    rw [MethodLang.execStmt, execStmt]
    refine alike_inScope hl.size_pos (by simpa using hl) (.execAll body fun st _ => ?_)
    exact hexec _ active _ st (Scopes.live_push_next s (some scope))
  | seq body =>
    rw [MethodLang.execStmt, execStmt]
    exact .execAll body fun st _ => hexec s active scope st hl
  | ite cond yes no =>
    rw [MethodLang.execStmt, execStmt]
    refine (hvalue cond).bind fun v => (Action.Alike.ofExcept _).bind fun truth => ?_
    cases truth with
    | true => exact hexec s active scope yes hl
    | false => exact .execOption no fun st _ => hexec s active scope st hl
  | doWhile cond body =>
    rw [MethodLang.execStmt, execStmt]
    refine (hexec s active scope body hl).bind fun signal => ?_
    cases signal with
    | brk | ret => exact .pure _
    | normal =>
      refine (hvalue cond).bind fun v => (Action.Alike.ofExcept _).bind fun truth => ?_
      cases truth with
      | true => exact hexec s active scope (.doWhile cond body) hl
      | false => exact .pure _
  | brk => exact .pure _
  | ret =>
    rw [MethodLang.execStmt, execStmt]
    exact (alike_findResult scope).bind fun _ => .pure _
  | read targets =>
    rw [MethodLang.execStmt, execStmt]
    exact (alike_readAll hl targets).bind fun _ => .pure _
  | write items =>
    rw [MethodLang.execStmt, execStmt]
    exact (alike_writeAll hvalue items).bind fun _ => (alike_onConsole _).bind fun _ => .pure _
  | invoke value =>
    rw [MethodLang.execStmt, execStmt]
    exact (hvalue value).bind fun _ => .pure _

/-- With any number of steps, evaluation and execution in an arena are those of the lexical
semantics. -/
theorem evalsAs_execsAs (w : Setting) (n : Nat) :
    EvalsAs (MethodLang.evalExpr w n) (evalExpr w n) ∧
      ExecsAs (MethodLang.execStmt w n) (execStmt w n) := by
  induction n with
  | zero => exact ⟨fun _ _ _ _ => .unfinished, fun _ _ _ _ _ => .unfinished⟩
  | succ n ih => exact ⟨evalsAs_succ ih.1 ih.2, execsAs_succ ih.1 ih.2⟩

end Lexical

end MethodLang
