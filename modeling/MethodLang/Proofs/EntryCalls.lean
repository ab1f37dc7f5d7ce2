import Mathlib
import MethodLang.Proofs.Evaluation
import MethodLang.Proofs.Lexical.Agreement

/-!
# The entry call

The scope of the entry method hangs under the root, and the scope of a method that is called in an
expression hangs under nothing. So the entry method sees the fields; and this is all that is special
about its call. Where the root binds neither the name of a method nor any name in its body, calling
the method as the entry is calling it without arguments.

* `Env.Backed` relates an environment with further bindings behind it to the one without;
* `Lexical.alike_callMethod_backed` says that a call does not notice the bindings behind, if they
  bind no name of the method;
* `entry_call_eq_ordinary_call` is the statement about the arena.
-/

namespace MethodLang

open Lexical (Sees evalsAs_execsAs)

/-! ### Bindings behind an environment -/

namespace Env

variable {b : Bindings} {env : Env} {name : String} {slot old : Slot}

/-- The second environment consists of `k` bindings, and the first has `b` behind them. -/
structure Backed (b : Bindings) (k : Nat) (env env' : Env) : Prop where
  eq : env = env' ++ [b]
  length : env'.length = k

theorem slot?_append_of_find? (h : b.find? name = none) (env : Env) :
    slot? (env ++ [b]) name = env.slot? name := by
  simp [slot?, List.findSome?_append, h]

/-- An assignment to a name that is bound in front does not reach what stands behind. -/
theorem store_append (h : env.slot? name = some old) (slot : Slot) (behind : Env) :
    store name slot (env ++ behind) = store name slot env ++ behind := by
  induction env with
  | nil => cases h
  | cons front env ih =>
    rw [List.cons_append]
    cases hf : front.find? name with
    | some held => rw [store_cons_of_find? hf, store_cons_of_find? hf, List.cons_append]
    | none =>
      rw [slot?_cons, hf, Option.none_or] at h
      rw [store_cons_of_not_find? hf, store_cons_of_not_find? hf, ih h, List.cons_append]

theorem length_store (name : String) (slot : Slot) (env : Env) :
    (store name slot env).length = env.length := by
  induction env with
  | nil => rfl
  | cons front env ih =>
    cases hf : front.find? name with
    | some held => rw [store_cons_of_find? hf, List.length_cons, List.length_cons]
    | none => rw [store_cons_of_not_find? hf, List.length_cons, List.length_cons, ih]

namespace Backed

variable {k : Nat} {env' : Env}

theorem push (h : Backed b k env env') : Backed b (k + 1) (.empty :: env) (.empty :: env') := by
  obtain ⟨rfl, hlength⟩ := h
  exact ⟨rfl, by rw [List.length_cons, hlength]⟩

theorem tail (h : Backed b (k + 1) env env') : Backed b k env.tail env'.tail := by
  obtain ⟨rfl, hlength⟩ := h
  cases env' with
  | nil => cases hlength
  | cons front env' => exact ⟨rfl, Nat.succ.inj hlength⟩

end Backed

end Env

namespace Lexical

open Env (Backed)

/-- As long as there are bindings in front, names that are not bound behind are neither found nor
bound there. -/
theorem agreement_backed (b : Bindings) :
    Agreement (fun name => b.find? name = none) fun k => Backed b (k + 1) where
  slot? {k env env' name} h hname := by rw [h.eq, Env.slot?_append_of_find? hname]
  bindFront {k env env' name} h _ _ slot := by
    obtain ⟨rfl, hlength⟩ := h
    cases env' with
    | nil => cases hlength
    | cons front env' => exact ⟨rfl, hlength⟩
  store {k env env' name old} h hname hold slot := by
    obtain ⟨rfl, hlength⟩ := h
    rw [Env.slot?_append_of_find? hname] at hold
    exact ⟨Env.store_append hold slot [b], by rw [Env.length_store, hlength]⟩
  push h := h.push
  tail h := h.tail

variable {b : Bindings} {w : Setting} {name : String} {m : Method}

theorem alike_runMethod_backed (hname : b.find? m.name = none)
    (hbody : ∀ x ∈ Stmt.allNames m.body, b.find? x = none) (w : Setting) (n depth : Nat) :
    Action.Alike (State.Agree (Backed b 1)) (runMethod (execStmt w n ⟨depth, some m.name⟩) m)
      (runMethod (execStmt w n ⟨depth, some m.name⟩) m) := by
  have hagree := agreement_backed b
  refine (hagree.alike_declare (k := 0) hname .int).bind fun _ => ?_
  refine Action.Alike.bind (.execAll m.body fun st hst => ?_) fun _ => ?_
  · refine hagree.execStmt w n (fun x hx => ?_) (fun x hx => ?_) 0
    · cases hx
      exact hname
    · exact hbody x (Stmt.mem_allNames.2 ⟨st, hst, hx⟩)
  · split
    · exact .pure _
    · exact hagree.alike_valueOf (k := 0) hname

/-- Whether bindings stand behind makes no difference to a call without arguments, if they bind no
name of the method. -/
theorem alike_callMethod_backed (hm : w.method? name = some m) (hname : b.find? m.name = none)
    (hbody : ∀ x ∈ Stmt.allNames m.body, b.find? x = none) (eval : Expr → Action Console Value)
    (n depth : Nat) :
    Action.Alike (State.Agree (Backed b 0)) (callMethod w eval (execStmt w n) depth name [])
      (callMethod w eval (execStmt w n) depth name []) := by
  simp only [callMethod, hm]
  split
  · exact .fail _
  · refine alike_inFront (fun _ _ => Backed.push) (fun _ _ => Backed.tail) ?_
    refine Action.Alike.bind ?_ fun _ => alike_runMethod_backed hname hbody w n (depth + 1)
    cases m.params with
    | nil => exact .pure _
    | cons => exact .fail _

end Lexical

/-! ### The arena -/

theorem Scopes.env_root {s : Scopes} (h : s.Live root) : s.env root = [s.slotsAt root] := by
  have hparent : s.parent? root = none := by
    cases hp : s.parent? root with
    | none => rfl
    | some p => exact absurd (parent?_lt hp) (Nat.not_lt_zero p.index)
  rw [env_of_live h, hparent]
  rfl

/-- Where the root binds neither the name of a method nor any name in its body, calling it as the
entry method is calling it without arguments: with the same value or the same error, on the same
machine, or neither ends. All of the arena and the active calls are afterwards as before. -/
theorem entry_call_eq_ordinary_call (w : Setting) (n : Nat) (name : String) (m : Method)
    (machine : Machine) (hm : w.method? name = some m) (hl : machine.scopes.Live Scopes.root)
    (hfree : ∀ x, x = m.name ∨ x ∈ Stmt.allNames m.body →
      (machine.scopes.slotsAt Scopes.root).find? x = none) :
    invokeEntry w n name machine = invoke w n Scopes.root name [] machine ∧
      (invokeEntry w n name machine).Leaves fun m' =>
        m'.scopes = machine.scopes ∧ m'.calls = machine.calls := by
  have hsame : invokeEntry w n name machine = invoke w n Scopes.root name [] machine := by
    have halike : ∀ parent, (∀ p ∈ parent, machine.scopes.Live p) →
        (callMethod w (evalExpr w n Scopes.root) (execStmt w n) parent name [] machine).Alike
          (Sees machine.scopes machine.calls parent)
          (Lexical.callMethod w (Lexical.evalExpr w n 0 []) (Lexical.execStmt w n)
            machine.calls.size name [] ⟨machine.scopes.envAbove parent, machine.console⟩) :=
      fun parent hp => Lexical.alike_callMethod w hl.size_pos hp name [] (by simp)
        (evalsAs_execsAs w n).2 machine _ (Sees.self machine parent)
    have hbacked : Env.Backed (machine.scopes.slotsAt Scopes.root) 0
        (machine.scopes.envAbove (some Scopes.root)) (machine.scopes.envAbove none) :=
      ⟨Scopes.env_root hl, rfl⟩
    have hcalls := Lexical.alike_callMethod_backed hm (hfree _ (.inl rfl))
      (fun x hx => hfree x (.inr hx)) (Lexical.evalExpr w n 0 []) n machine.calls.size
      ⟨_, machine.console⟩ ⟨_, machine.console⟩ ⟨hbacked, rfl⟩
    have hentry := halike (some Scopes.root) (by simpa using hl)
    refine hentry.eq_of_alike (halike none (by simp)) hcalls fun m₁ m₂ l₁ l₂ h₁ h₂ h => ?_
    -- nothing stands in front at the end, so the bindings behind are those that were there before
    have henv : m₁.scopes.env Scopes.root = machine.scopes.env Scopes.root := by
      rw [← Scopes.envAbove_some, h₁.env, h.env.eq, List.eq_nil_of_length_eq_zero h.env.length,
        Scopes.env_root hl, List.nil_append]
    have hscopes : m₁.scopes = machine.scopes := h₁.agree.eq_of_env (.refl _ _) henv
    rw [h₂.eq_of_none, ← h.console, ← h₁.console, ← hscopes, ← h₁.calls]
  refine ⟨hsame, ?_⟩
  rw [hsame, ← evalExpr_call]
  exact evalExpr_leaves hl w (n + 1) _

/-- A method that counts down in a loop, by way of a block and of calls. -/
def countdown : Method :=
  .ofDecl ⟨"countdown", some ⟨"int"⟩, [], [
    .declare "k" ⟨"int"⟩, .assign "k" (.int 2),
    .doWhile (.binary (.var "k") .gt (.int 0)) (.block [
      .declare "t" ⟨"int"⟩, .assign "t" (.call "twice" [.var "k"]), .write [.expr (.var "t")],
      .assign "k" (.binary (.var "k") .sub (.int 1))]),
    .assign "countdown" (.var "k")]⟩

/-- The methods of `doubling` and `countdown`. -/
def counting : Setting := ⟨countdown :: Program.doubling.methods, 3⟩

theorem entry_call_of_countdown :
    counting.method? "countdown" = some countdown ∧ inMain.scopes.Live Scopes.root ∧
    (∀ x, x = countdown.name ∨ x ∈ Stmt.allNames countdown.body →
      (inMain.scopes.slotsAt Scopes.root).find? x = none) ∧
    invokeEntry counting 16 "countdown" inMain =
      .done (.int 0) { inMain with console := ⟨[], [], ⟨"4 \n2 \n".toUTF8.data, none, false⟩⟩ } ∧
    invokeEntry counting 16 "countdown" inMain =
      invoke counting 16 Scopes.root "countdown" [] inMain ∧
    (invokeEntry counting 16 "countdown" inMain).Leaves (fun m' =>
      m'.scopes = inMain.scopes ∧ m'.calls = inMain.calls) := by
  have hm : counting.method? "countdown" = some countdown := by rfl
  have hlive : inMain.scopes.Live Scopes.root := by decide
  have hfree : ∀ x, x = countdown.name ∨ x ∈ Stmt.allNames countdown.body →
      (inMain.scopes.slotsAt Scopes.root).find? x = none := by
    intro x hx
    rw [← List.mem_cons] at hx
    revert x
    decide
  have hcall := entry_call_eq_ordinary_call counting 16 "countdown" countdown inMain hm hlive hfree
  exact ⟨hm, hlive, hfree, by cbv, hcall.1, hcall.2⟩

end MethodLang
