import Mathlib
import MethodLang.Proofs.Evaluation
import MethodLang.Proofs.Lexical.Blocks

/-!
# Blocks

A block runs its statements in a scope of its own, which is released at the end. `block_eq_seq` says
that it might as well run them in the surrounding scope and afterwards forget the names that were
not there before: the signal or the error, the console and all the rest of the arena are the same.
-/

namespace MethodLang

open Lexical (Sees evalsAs_execsAs)

/-! ### Forgetting names of a scope -/

namespace Scopes

/-- With only those names left in a scope that are bound in `kept`. -/
def restrictAt (s : Scopes) (scope : ScopeId) (kept : Bindings) : Scopes :=
  ⟨s.frames.modify scope.index fun frame => { frame with slots := frame.slots.restrict kept }⟩

variable {s t : Scopes} {scope id : ScopeId} {kept : Bindings} {touched : List ScopeId}

theorem frame?_restrictAt (s : Scopes) (scope : ScopeId) (kept : Bindings) (id : ScopeId) :
    (s.restrictAt scope kept).frame? id =
      if id = scope then
        (s.frame? id).map fun frame => { frame with slots := frame.slots.restrict kept }
      else s.frame? id := by
  simp [frame?, restrictAt, Array.getElem?_modify, ScopeId.ext_iff, eq_comm]

/-- Forgetting changes one scope only. -/
theorem agreeOff_restrictAt (h : scope ∈ touched) (s : Scopes) (kept : Bindings) :
    AgreeOff touched s (s.restrictAt scope kept) :=
  .of_frame? (·.restrict kept) h (frame?_restrictAt s scope kept)

theorem slotsAt_restrictAt (s : Scopes) (scope : ScopeId) (kept : Bindings) :
    (s.restrictAt scope kept).slotsAt scope = (s.slotsAt scope).restrict kept := by
  rw [slotsAt, slotsAt, frame?_restrictAt, if_pos rfl]
  cases s.frame? scope <;> rfl

/-- Forgetting names of a scope forgets them in front of its environment. -/
theorem env_restrictAt (h : s.Live scope) (kept : Bindings) :
    (s.restrictAt scope kept).env scope = (s.env scope).restrictFront kept := by
  have hagree : AgreeOff [scope] s (s.restrictAt scope kept) :=
    agreeOff_restrictAt List.mem_cons_self s kept
  have habove : ∀ id ∈ s.above (s.parent? scope), id ∉ [scope] := fun id hid hmem =>
    s.not_mem_above_parent? scope (List.mem_singleton.1 hmem ▸ hid)
  rw [env_of_live (hagree.live_iff.2 h), hagree.parent?, slotsAt_restrictAt,
    hagree.envAbove_eq habove, env_of_live h, Env.restrictFront]

end Scopes

/-! ### Statements -/

/-- A block is its statements in the surrounding scope, followed by forgetting: in a live scope of
any machine, both end in the same signal or the same error, or neither ends, with the same console
and the same active calls, and the arena after the block is that after the statements without the
names in the surrounding scope that were not there before. -/
theorem block_eq_seq (w : Setting) (n : Nat) (scope : ScopeId) (body : List Stmt) (m : Machine)
    (h : m.scopes.Live scope) :
    execStmt w n scope (.block body) m =
      (execStmt w n scope (.seq body) m).mapState fun m' =>
        { m' with scopes := m'.scopes.restrictAt scope (m.scopes.slotsAt scope) } := by
  have halike : ∀ st, (execStmt w n scope st m).Alike (Sees m.scopes m.calls (some scope))
      (Lexical.execStmt w n (Lexical.activation m.calls) st ⟨m.scopes.env scope, m.console⟩) :=
    fun st => (evalsAs_execsAs w n).2 m.scopes m.calls scope st h m _ (Sees.self m (some scope))
  have hblock := halike (.block body)
  have henv := Scopes.env_of_live h
  rw [henv, Lexical.execStmt_block, ← henv] at hblock
  refine (halike (.seq body)).eq_mapState hblock fun m₁ m₂ l h₁ h₂ => ?_
  -- both arenas agree with the first off the chain, so their environments decide
  have hlive : m₁.scopes.Live scope := h₁.agree.live_iff.2 h
  have hforget := h₁.agree.trans (Scopes.agreeOff_restrictAt (Scopes.mem_chain_self h) m₁.scopes
    (m.scopes.slotsAt scope))
  have hscopes : m₂.scopes = m₁.scopes.restrictAt scope (m.scopes.slotsAt scope) := by
    refine h₂.agree.eq_of_env hforget ?_
    rw [Scopes.env_restrictAt hlive, ← Scopes.envAbove_some, h₂.env, ← h₁.env, Scopes.envAbove_some]
  rw [← hscopes, h₁.calls, ← h₂.calls, h₁.console, ← h₂.console]

/-- Assign the field, by way of a variable of the block, and leave the loop around. -/
def raiseLimit : List Stmt :=
  [.declare "u" ⟨"int"⟩, .assign "u" (.int 3), .assign "limit" (.call "twice" [.var "u"]), .brk]

/-- With the field raised to six. -/
def raised : Scopes := inMain.scopes.put Scopes.root "limit" ⟨.int, true, .int 6⟩

theorem block_eq_seq_in_main :
    inMain.scopes.Live ⟨1⟩ ∧
    execStmt Program.doubling.setting 9 ⟨1⟩ (.block raiseLimit) inMain =
      .done .brk { inMain with scopes := raised } ∧
    execStmt Program.doubling.setting 9 ⟨1⟩ (.seq raiseLimit) inMain =
      .done .brk { inMain with scopes := raised.put ⟨1⟩ "u" ⟨.int, true, .int 3⟩ } ∧
    execStmt Program.doubling.setting 9 ⟨1⟩ (.block raiseLimit) inMain =
      (execStmt Program.doubling.setting 9 ⟨1⟩ (.seq raiseLimit) inMain).mapState fun m' =>
        { m' with scopes := m'.scopes.restrictAt ⟨1⟩ (inMain.scopes.slotsAt ⟨1⟩) } := by
  have hlive : inMain.scopes.Live ⟨1⟩ := by decide
  exact ⟨hlive, by cbv, by cbv, block_eq_seq _ _ _ _ _ hlive⟩

end MethodLang
