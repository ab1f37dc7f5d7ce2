import Mathlib
import MethodLang.Eval.Steps
import MethodLang.Proofs.Congruence

/-!
# Programs without loops end

Where no loop stands in the fields nor in any method, evaluation ends, however the methods call
each other: a part of a tree is smaller than the tree, and a method that is called has one call
less left.

The arguments of a call are evaluated before the call becomes active. So the calls left go down
from a call to the body of the method, and the tree goes down from a call to its arguments; the
induction is on the calls left, and for each number of them on trees.

* `Action.Halts` says that an action ends where at most so many calls are left;
* `exists_haltsExpr` says that expressions halt if the bodies of methods do, `exists_haltsStmt` that
  statements without loops halt if expressions do, and `exists_halts` that all of them halt;
* `loopFree_runs_end` says it of runs and of evaluation in a program.
-/

namespace MethodLang

open MethodLang.Action (Congruence)

/-! ### Trees without loops -/

mutual

/-- No loop stands in a statement. -/
def Stmt.loopFree : Stmt → Bool
  | .doWhile .. => false
  | .block body | .seq body => Stmt.allLoopFree body
  | .ite _ yes no => yes.loopFree && Stmt.optionLoopFree no
  | .declare .. | .assign .. | .brk | .ret | .read _ | .write _ | .invoke _ => true

def Stmt.optionLoopFree : Option Stmt → Bool
  | none => true
  | some st => st.loopFree

def Stmt.allLoopFree : List Stmt → Bool
  | [] => true
  | st :: rest => st.loopFree && Stmt.allLoopFree rest

end

namespace Stmt

theorem allLoopFree_iff {body : List Stmt} : allLoopFree body ↔ ∀ st ∈ body, st.loopFree := by
  induction body with
  | nil => simp [allLoopFree]
  | cons st rest ih => simp [allLoopFree, ih]

theorem loopFree_of_mem_parts {st part : Stmt} (h : st.loopFree) (hpart : part ∈ st.parts) :
    part.loopFree := by
  cases st with
  | block body | seq body =>
    rw [loopFree, allLoopFree_iff] at h
    exact h part hpart
  | ite cond yes no =>
    rw [loopFree, Bool.and_eq_true] at h
    simp only [parts, List.mem_cons, Option.mem_toList] at hpart
    rcases hpart with rfl | hpart
    · exact h.1
    · cases hpart
      exact h.2
  | doWhile cond body => cases h
  | declare | assign | brk | ret | read | write | invoke => simp [parts] at hpart

end Stmt

/-- No loop stands in the fields nor in any method. -/
def Program.LoopFree (p : Program) : Prop :=
  (∀ st ∈ p.fields, st.loopFree) ∧ ∀ m ∈ p.methods, ∀ st ∈ m.body, st.loopFree

instance (p : Program) : Decidable p.LoopFree :=
  inferInstanceAs (Decidable ((∀ st ∈ p.fields, st.loopFree) ∧
    ∀ m ∈ p.methods, ∀ st ∈ m.body, st.loopFree))

/-! ### Actions that end -/

/-- Evaluation leaves as many calls active as there were. -/
theorem calls_stable : Machine.Stable (Order.Preimage Machine.calls (· = ·)) where
  declare _ := rfl
  assign _ := rfl
  readInt _ := rfl
  put _ _ := rfl
  inScope _ h := h
  inCall {m m'} name h := by
    have hcalls : m.calls.push name = m'.calls := h
    change m.calls = m'.calls.pop
    rw [← hcalls, Array.pop_push]

@[simp] theorem Outcome.mapState_eq_unfinished_iff {σ τ α : Type} {f : σ → τ} {x : Outcome σ α} :
    x.mapState f = .unfinished ↔ x = .unfinished := by
  cases x <;> simp [mapState]

theorem Action.update_ends (u : Scopes.Update) (m : Machine) : update u m ≠ .unfinished := by
  simp only [update]
  rcases u m.scopes with ⟨_ | _, _⟩ <;> simp

theorem Action.onConsole_ends {α : Type} (f : Console → Except ConsoleError α × Console)
    (m : Machine) : onConsole f m ≠ .unfinished := by
  simp only [onConsole]
  rcases f m.console with ⟨_ | _, _⟩ <;> simp

/-- The action ends wherever at most `left` calls can still be made, and leaves the active calls
as they are, so that what comes after it has as many left. -/
structure Action.Halts {α : Type} (limit left : Nat) (x : Action Machine α) : Prop where
  ends (m : Machine) (h : limit ≤ m.calls.size + left) : x m ≠ .unfinished
  calls : x.Keeps (Order.Preimage Machine.calls (· = ·))

namespace Action.Halts

variable {α β : Type} {limit left : Nat} {x y : Action Machine α}

protected theorem bind {f : α → Action Machine β} (h : x.Halts limit left)
    (hf : ∀ a, (f a).Halts limit left) : (x >>= f).Halts limit left where
  ends m hm := by
    have hx := h.ends m hm
    have hcalls := h.calls m
    simp only [Bind.bind, Action.bind]
    generalize x m = ends at hx hcalls ⊢
    cases ends with
    | done a m' =>
      have hm' : m.calls = m'.calls := hcalls
      apply (hf a).ends m'
      rw [← hm']
      exact hm
    | failed e m' => simp
    | unfinished => exact absurd rfl hx
  calls := h.calls.bind fun a => (hf a).calls

/-- A method has one call less left than its caller. -/
theorem inCall (name : String) (h : x.Halts limit left) :
    (Action.inCall name x).Halts limit (left + 1) where
  ends m hm := by
    have hx : x { m with calls := m.calls.push name } ≠ .unfinished := by
      apply h.ends
      rw [Array.size_push]
      omega
    rw [inCall_apply, Ne, Outcome.mapState_eq_unfinished_iff]
    exact hx
  calls := calls_stable.keeps_inCall name h.calls

/-- More steps do no harm. -/
theorem of_refines (h : x.Halts limit left) (hxy : x.Refines y)
    (hy : y.Keeps (Order.Preimage Machine.calls (· = ·))) : y.Halts limit left where
  ends m hm := by
    rw [hxy m (h.ends m hm)]
    exact h.ends m hm
  calls := hy

end Action.Halts

/-- What evaluation does to a machine takes no steps by itself. -/
theorem halts_congruence (limit left : Nat) : Congruence fun _ x _ => x.Halts limit left where
  ask f :=
    { ends m _ := by
        simp only [Action.ask]
        cases f m.scopes m.calls <;> simp
      calls := @Congruence.ask _ calls_stable.congruence _ f }
  bind hx hf := hx.bind hf
  declare scope name ty :=
    ⟨fun m _ => Action.update_ends _ m, calls_stable.congruence.declare scope name ty⟩
  assign scope name value :=
    ⟨fun m _ => Action.update_ends _ m, calls_stable.congruence.assign scope name value⟩
  readInt := ⟨fun m _ => Action.onConsole_ends _ m, calls_stable.congruence.readInt⟩
  put text := ⟨fun m _ => Action.onConsole_ends _ m, calls_stable.congruence.put text⟩
  inScope parent f g hf :=
    { ends m hm := by
        rw [Action.inScope_apply, Ne, Outcome.mapState_eq_unfinished_iff]
        exact (hf _).ends _ hm
      calls := @Congruence.inScope _ calls_stable.congruence _ parent f g fun scope =>
        (hf scope).calls }

/-! ### Enough steps -/

variable {w : Setting} {left n k : Nat}

/-- All scopes are meant: how many steps are enough does not depend on where the tree stands. -/
def Setting.HaltsExpr (w : Setting) (left n : Nat) (e : Expr) : Prop :=
  ∀ scope, (evalExpr w n scope e).Halts w.limit left

/-- The same for statements. -/
def Setting.HaltsStmt (w : Setting) (left n : Nat) (st : Stmt) : Prop :=
  ∀ scope, (execStmt w n scope st).Halts w.limit left

theorem Setting.HaltsExpr.mono {e : Expr} (h : w.HaltsExpr left n e) (hnk : n ≤ k) :
    w.HaltsExpr left k e := fun scope =>
  (h scope).of_refines (evalExpr_refines w hnk scope e) (calls_stable.keeps_evalExpr w k scope e)

theorem Setting.HaltsStmt.mono {st : Stmt} (h : w.HaltsStmt left n st) (hnk : n ≤ k) :
    w.HaltsStmt left k st := fun scope =>
  (h scope).of_refines (execStmt_refines w hnk scope st) (calls_stable.keeps_execStmt w k scope st)

/-- The same for the bodies of all methods, which have one call less left than their callers. Where
no call is left no method is entered. -/
def Setting.HaltsBodies (w : Setting) (left n : Nat) : Prop :=
  ∀ fewer, left = fewer + 1 → ∀ st ∈ w.methods.flatMap Method.body, w.HaltsStmt fewer n st

theorem Setting.HaltsBodies.mono (h : w.HaltsBodies left n) (hnk : n ≤ k) : w.HaltsBodies left k :=
  fun fewer hfewer st hst => (h fewer hfewer st hst).mono hnk

/-- If some number of steps is enough for each member of a list, some number is for all. -/
theorem exists_common_steps {ι : Type} {P : Nat → ι → Prop}
    (mono : ∀ {n k i}, P n i → n ≤ k → P k i) {l : List ι} (h : ∀ i ∈ l, ∃ n, P n i) :
    ∃ n, ∀ i ∈ l, P n i := by
  induction l with
  | nil => exact ⟨0, by simp⟩
  | cons i rest ih =>
    rw [List.forall_mem_cons] at h
    obtain ⟨n, hn⟩ := h.1
    obtain ⟨k, hk⟩ := ih h.2
    refine ⟨max n k, ?_⟩
    rw [List.forall_mem_cons]
    exact ⟨mono hn (Nat.le_max_left n k), fun j hj => mono (hk j hj) (Nat.le_max_right n k)⟩

/-! ### Calls, expressions and statements -/

/-- A call ends if its arguments and the bodies of methods do. -/
theorem callMethod_halts {scope : ScopeId} {args : List Expr}
    (hargs : ∀ arg ∈ args, w.HaltsExpr left n arg) (hbodies : w.HaltsBodies left n)
    (parent : Option ScopeId) (name : String) :
    (callMethod w (evalExpr w n scope) (execStmt w n) parent name args).Halts w.limit left := by
  cases left with
  | zero =>
    refine ⟨fun m hm => ?_, calls_stable.keeps_callMethod w (calls_stable.keeps_evalExpr w n scope)
      (calls_stable.keeps_execStmt w n) parent name args⟩
    -- no call is left, so this one is refused
    rw [callMethod]
    cases w.method? name with
    | none => simp [Action.fail]
    | some method =>
      have hdepth : w.limit ≤ m.calls.size := hm
      simp [hdepth, Action.fail]
  | succ fewer =>
    apply @Congruence.callMethod _ _ (evalExpr w n scope) _ (execStmt w n)
      (halts_congruence w.limit (fewer + 1)) w parent name args fun arg harg => hargs arg harg scope
    intro m hm callee
    apply Action.Halts.inCall
    apply @Congruence.execAll _ (halts_congruence w.limit fewer) _ (execStmt w n callee) m.body
    intro st hst
    have hmem : m ∈ w.methods := List.mem_of_find?_eq_some hm
    exact hbodies fewer rfl st (List.mem_flatMap.2 ⟨m, hmem, hst⟩) callee

/-- Every expression halts, if the bodies of methods do. -/
theorem exists_haltsExpr (hbodies : ∃ n, w.HaltsBodies left n) (e : Expr) :
    ∃ n, w.HaltsExpr left n e := by
  induction e using Expr.parts_induction with
  | step e ih =>
    obtain ⟨n, hn⟩ := exists_common_steps (fun h => h.mono) ih
    obtain ⟨k, hk⟩ := hbodies
    have hparts : ∀ part ∈ e.parts, w.HaltsExpr left (max n k) part := fun part hpart =>
      (hn part hpart).mono (Nat.le_max_left n k)
    refine ⟨max n k + 1, fun scope => ?_⟩
    apply @Congruence.evalExpr_succ _ w w _ (max n k) (halts_congruence w.limit left) scope e
    · exact fun part hpart => hparts part hpart scope
    · rintro name args rfl
      exact callMethod_halts hparts (hk.mono (Nat.le_max_right n k)) none name

/-- A statement without loops halts, if expressions do. -/
theorem exists_haltsStmt (hexprs : ∀ e, ∃ n, w.HaltsExpr left n e) {st : Stmt}
    (h : st.loopFree) : ∃ n, w.HaltsStmt left n st := by
  induction st using Stmt.parts_induction with
  | step st ih =>
    obtain ⟨n, hn⟩ := exists_common_steps (fun h => h.mono) fun e (_ : e ∈ st.exprs) => hexprs e
    obtain ⟨k, hk⟩ := exists_common_steps (fun h => h.mono) fun part hpart =>
      ih part hpart (Stmt.loopFree_of_mem_parts h hpart)
    refine ⟨max n k + 1, fun scope => ?_⟩
    apply @Congruence.execStmt_succ _ w w _ (max n k) (halts_congruence w.limit left) scope st
    · exact fun e he => (hn e he).mono (Nat.le_max_left n k) scope
    · exact fun part hpart => (hk part hpart).mono (Nat.le_max_right n k)
    · rintro cond body rfl
      cases h

/-- Where methods have no loops, all expressions halt, and so do statements without loops, however
many calls are left. -/
theorem exists_halts (hw : ∀ st ∈ w.methods.flatMap Method.body, st.loopFree) (left : Nat) :
    (∃ n, w.HaltsBodies left n) ∧ (∀ e, ∃ n, w.HaltsExpr left n e) ∧
      ∀ st, st.loopFree → ∃ n, w.HaltsStmt left n st := by
  have of_bodies : ∀ {left}, (∃ n, w.HaltsBodies left n) → (∃ n, w.HaltsBodies left n) ∧
      (∀ e, ∃ n, w.HaltsExpr left n e) ∧ ∀ st, st.loopFree → ∃ n, w.HaltsStmt left n st :=
    fun hbodies => ⟨hbodies, exists_haltsExpr hbodies, fun _ =>
      exists_haltsStmt (exists_haltsExpr hbodies)⟩
  induction left with
  | zero => exact of_bodies ⟨0, fun _ h => by cases h⟩
  | succ fewer ih =>
    obtain ⟨n, hn⟩ := exists_common_steps (fun h => h.mono) fun st hst => ih.2.2 st (hw st hst)
    apply of_bodies
    refine ⟨n, fun _ h => ?_⟩
    cases h
    exact hn

/-! ### Programs -/

namespace Program

variable {p : Program}

theorem after_eq_none_iff {α : Type} {x : Outcome Machine α} :
    p.after x = none ↔ x = .unfinished := by
  cases x <;> simp [after]

theorem LoopFree.bodies (h : p.LoopFree) :
    ∀ st ∈ p.setting.methods.flatMap Method.body, st.loopFree := by
  intro st hst
  obtain ⟨m, hm, hst⟩ := List.mem_flatMap.1 hst
  exact h.2 m hm st hst

theorem exists_action_halts (h : p.LoopFree) (entry : String) :
    ∃ n, (p.action n entry).Halts p.limit p.limit := by
  obtain ⟨⟨n, hbodies⟩, -, hstmts⟩ := exists_halts h.bodies p.limit
  obtain ⟨k, hfields⟩ := exists_common_steps (fun h => h.mono) fun st hst =>
    hstmts st (h.1 st hst)
  have hcongr := halts_congruence p.limit p.limit
  refine ⟨max n k, Action.Halts.bind ?_ fun _ => ?_⟩
  · apply @Congruence.execAll _ hcongr _ (execStmt p.setting (max n k) Scopes.root) p.fields
    exact fun st hst => (hfields st hst).mono (Nat.le_max_right n k) Scopes.root
  · have hentry : p.setting.HaltsBodies p.limit (max n k) := hbodies.mono (Nat.le_max_left n k)
    exact callMethod_halts (by simp) hentry (some Scopes.root) entry

/-- A program without loops ends, in a result or an error, and so does the evaluation of any
expression in it, under every limit and on every input, however its methods call each other. -/
theorem loopFree_runs_end (p : Program) (h : p.LoopFree) (console : Console) :
    (∃ n, p.run n console ≠ none) ∧ ∀ e, ∃ n, p.evaluate n e console ≠ none := by
  constructor
  · cases hentry : p.entry with
    | none => exact ⟨0, by simp [run, hentry]⟩
    | some entry =>
      obtain ⟨n, hn⟩ := exists_action_halts h entry
      refine ⟨n, ?_⟩
      simp only [run, hentry, ne_eq, Option.map_eq_none_iff, after_eq_none_iff]
      exact hn.ends _ (Nat.le_add_left _ _)
  · intro e
    obtain ⟨-, hexprs, -⟩ := exists_halts h.bodies p.limit
    obtain ⟨n, hn⟩ := hexprs e
    refine ⟨n, ?_⟩
    rw [evaluate, Ne, after_eq_none_iff]
    exact (hn Scopes.root).ends _ (Nat.le_add_left _ _)

/-- Methods that call each other without end, from the arguments of calls too. -/
def tangled : Program where
  name := "tangled"
  fields := [.declare "limit" ⟨"int"⟩, .read ["limit"]]
  methods := [
    .ofDecl ⟨"even", some ⟨"int"⟩, ["x"], [
      .block [.assign "even" (.call "odd" [.call "even" [.var "x"]])]]⟩,
    .ofDecl ⟨"odd", some ⟨"int"⟩, ["x"], [
      .ite (.bool true) (.assign "odd" (.call "even" [.var "x"])) (some .brk)]⟩,
    .ofDecl ⟨"main", none, [], [.write [.expr (.call "odd" [.var "limit"])]]⟩]
  entry := some "main"
  limit := defaultLimit
  scopes := .initial

theorem tangled_runs_end :
    tangled.LoopFree ∧ (∃ n, tangled.run n (.ofInput [55, 10] none false) ≠ none) ∧
      ∃ n, tangled.evaluate n (.call "even" [.int 3]) (.ofInput [] none false) ≠ none := by
  have hloopFree : tangled.LoopFree := by decide
  refine ⟨hloopFree, ?_, ?_⟩
  · exact (loopFree_runs_end tangled hloopFree _).1
  · exact (loopFree_runs_end tangled hloopFree _).2 _

end Program

end MethodLang
