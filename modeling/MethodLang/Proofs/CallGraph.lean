import Mathlib
import MethodLang.Proofs.Callees
import MethodLang.Proofs.Congruence

/-!
# The methods that may be called

From some names, the names that may be called are these, whatever stands in the bodies of their
methods as the method of a call, whatever stands in the bodies of those, and so on. Nothing but the
methods of these names makes a difference: a method table with the same methods under them, and
none where there was none, has the same runs.
-/

namespace MethodLang

open MethodLang.Action (Congruence)

/-- The names that may be called from some names: the least set that has these and, with a name,
whatever the body of its method calls. -/
inductive MayCall (table : String → Option Method) (start : List String) : String → Prop
  | start {name : String} (h : name ∈ start) : MayCall table start name
  | body {caller name : String} {m : Method} (h : MayCall table start caller)
      (hm : table caller = some m) (hname : name ∈ Stmt.allCallees m.body) :
      MayCall table start name

variable {table : String → Option Method} {start : List String} {name : String}

/-- A set that has the first names and is closed under calls has all names that may be called. -/
theorem MayCall.least {P : String → Prop} (h : MayCall table start name)
    (hstart : ∀ name ∈ start, P name)
    (hbody : ∀ caller m, P caller → table caller = some m →
      ∀ name ∈ Stmt.allCallees m.body, P name) : P name := by
  induction h with
  | start h => exact hstart _ h
  | body _ hm hname ih => exact hbody _ _ ih hm _ hname

/-! ### Evaluation -/

/-- What evaluation does to a machine is the same with parts that are the same. -/
theorem Action.eq_congruence : Congruence fun _ x y => x = y where
  ask _ := rfl
  bind h hf := by rw [h, funext hf]
  declare _ _ _ := rfl
  assign _ _ _ := rfl
  readInt := rfl
  put _ := rfl
  inScope _ _ _ h := by rw [funext h]

/-- The settings have the same limit, and the same methods under the names that may be called. -/
structure Setting.AgreeFrom (start : List String) (w w' : Setting) : Prop where
  limit : w.limit = w'.limit
  method? (name : String) (h : MayCall w.method? start name) : w.method? name = w'.method? name

variable {w w' : Setting}

theorem Setting.AgreeFrom.callMethod (h : w.AgreeFrom start w')
    {eval eval' : Expr → Action Machine Value}
    {exec exec' : ScopeId → Stmt → Action Machine Signal} (parent : Option ScopeId)
    {args : List Expr} (hname : MayCall w.method? start name)
    (heval : ∀ arg ∈ args, eval arg = eval' arg)
    (hexec : ∀ scope st, (∀ callee ∈ st.callees, MayCall w.method? start callee) →
      exec scope st = exec' scope st) :
    callMethod w eval exec parent name args =
      MethodLang.callMethod w' eval' exec' parent name args := by
  have heq := Action.eq_congruence
  have hbody : ∀ m, w.method? name = some m → ∀ callee,
      execAll (exec callee) m.body = execAll (exec' callee) m.body := by
    intro m hm callee
    apply heq.execAll
    intro st hst
    apply hexec
    exact fun name hcalled => .body hname hm (Stmt.mem_allCallees.2 ⟨st, hst, hcalled⟩)
  calc
    MethodLang.callMethod w eval exec parent name args
      = MethodLang.callMethod w eval' exec' parent name args :=
        heq.callMethod w parent name args heval fun m hm callee => by rw [hbody m hm callee]
    _ = MethodLang.callMethod w' eval' exec' parent name args := by
        simp only [MethodLang.callMethod, h.method? name hname, h.limit]

/-- Expressions and statements that call only such names do the same in both settings. -/
theorem Setting.AgreeFrom.evalExpr_execStmt (h : w.AgreeFrom start w') (n : Nat) :
    (∀ scope e, (∀ name ∈ e.callees, MayCall w.method? start name) →
      evalExpr w n scope e = evalExpr w' n scope e) ∧
    ∀ scope st, (∀ name ∈ st.callees, MayCall w.method? start name) →
      execStmt w n scope st = execStmt w' n scope st := by
  induction n with
  | zero => exact ⟨fun _ _ _ => rfl, fun _ _ _ => rfl⟩
  | succ n ih =>
    obtain ⟨heval, hexec⟩ := ih
    constructor
    · intro scope e hcallees
      apply Action.eq_congruence.evalExpr_succ scope e
      · intro part hpart
        apply heval
        exact fun name hname => hcallees name (Expr.mem_callees_of_mem_parts hpart hname)
      · rintro name args rfl
        apply h.callMethod none (hcallees name (by simp [Expr.callees]))
        · intro arg harg
          apply heval
          exact fun name hname => hcallees name (Expr.mem_callees_of_mem_parts harg hname)
        · exact hexec
    · intro scope st hcallees
      apply Action.eq_congruence.execStmt_succ scope st
      · intro e he
        apply heval
        exact fun name hname => hcallees name (Stmt.mem_callees_of_mem_exprs he hname)
      · intro part hpart scope
        apply hexec
        exact fun name hname => hcallees name (Stmt.mem_callees_of_mem_parts hpart hname)
      · exact fun _ _ _ => hexec scope st hcallees

/-! ### Programs -/

namespace Program

/-- The program with other methods. -/
def withMethods (p : Program) (methods : List Method) : Program := { p with methods }

variable {p : Program} {methods : List Method}

theorem action_withMethods {entry : String} (hentry : p.entry = some entry)
    (h : p.setting.AgreeFrom (p.entry.toList ++ Stmt.allCallees p.fields)
      (p.withMethods methods).setting) (n : Nat) :
    p.action n entry = (p.withMethods methods).action n entry := by
  obtain ⟨-, hexec⟩ := h.evalExpr_execStmt n
  have heq := Action.eq_congruence
  apply heq.bind
  · apply heq.execAll
    intro st hst
    apply hexec
    intro name hname
    apply MayCall.start
    exact List.mem_append_right _ (Stmt.mem_allCallees.2 ⟨st, hst, hname⟩)
  · intro _
    apply h.callMethod (some Scopes.root)
    · exact .start (by simp [hentry])
    · simp
    · exact hexec

theorem after_withMethods {α : Type} (p : Program) (methods : List Method) (x : Outcome Machine α) :
    (p.withMethods methods).after x =
      (p.after x).map fun (result, p', console) => (result, p'.withMethods methods, console) := by
  cases x <;> rfl

/-- Two programs that differ in their methods alone, and agree on those that the entry or the fields
may call, have the same runs; and if they agree on those that an expression may call, they give the
expression the same value. -/
theorem only_callable_methods_matter (p : Program) (methods : List Method) (n : Nat)
    (console : Console) :
    ((∀ name, MayCall p.method? (p.entry.toList ++ Stmt.allCallees p.fields) name →
        p.method? name = (p.withMethods methods).method? name) →
      (p.withMethods methods).run n console =
        (p.run n console).map fun (result, p', console') =>
          (result, p'.withMethods methods, console')) ∧
    ∀ e, (∀ name, MayCall p.method? e.callees name →
        p.method? name = (p.withMethods methods).method? name) →
      (p.withMethods methods).evaluate n e console =
        (p.evaluate n e console).map fun (result, p', console') =>
          (result, p'.withMethods methods, console') := by
  constructor
  · intro h
    have hagree : p.setting.AgreeFrom (p.entry.toList ++ Stmt.allCallees p.fields)
        (p.withMethods methods).setting := ⟨rfl, h⟩
    have hsame : (p.withMethods methods).entry = p.entry := rfl
    cases hentry : p.entry with
    | none => simp only [run, hsame, hentry, Option.map_some]
    | some entry =>
      simp only [run, hsame, hentry, ← action_withMethods hentry hagree n, after_withMethods,
        Option.map_map]
      congr 1
      funext answer
      obtain ⟨result, p', console'⟩ := answer
      cases result <;> rfl
  · intro e h
    have hagree : p.setting.AgreeFrom e.callees (p.withMethods methods).setting := ⟨rfl, h⟩
    have heval := (hagree.evalExpr_execStmt n).1 Scopes.root e fun name hname => .start hname
    rw [evaluate, evaluate, ← heval]
    exact after_withMethods p methods _

/-- An entry method that has a call of a missing method in one branch. -/
def branchingMain : Method :=
  .ofDecl ⟨"main", none, [], [
    .ite (.binary (.var "n") .eq (.int 0)) (.invoke (.call "missing" []))
      (some (.write [.expr (.call "one" [])]))]⟩

/-- A method that calls nothing. -/
def oneMethod : Method := .ofDecl ⟨"one", some ⟨"int"⟩, [], [.assign "one" (.int 1)]⟩

/-- A program with a method that it never calls. -/
def branching : Program where
  name := "branching"
  fields := [.declare "n" ⟨"int"⟩, .assign "n" (.call "one" [])]
  methods := [branchingMain, oneMethod, .ofDecl ⟨"idle", none, [], [.write [.text "idle"]]⟩]
  entry := some "main"
  limit := defaultLimit
  scopes := .initial

/-- The methods that `branching` may call, in another order, and another in the place of the idle
one. -/
def otherMethods : List Method :=
  [.ofDecl ⟨"idle", none, ["x"], [.invoke (.call "main" [])]⟩, oneMethod, branchingMain]

theorem branching_withMethods :
    (∀ name, MayCall branching.method?
        (branching.entry.toList ++ Stmt.allCallees branching.fields) name →
      branching.method? name = (branching.withMethods otherMethods).method? name) ∧
    (branching.withMethods otherMethods).run 16 (.ofInput [] none false) =
      (branching.run 16 (.ofInput [] none false)).map (fun (result, p', console') =>
        (result, p'.withMethods otherMethods, console')) ∧
    (branching.withMethods otherMethods).evaluate 16 (.call "one" []) (.ofInput [] none false) =
      (branching.evaluate 16 (.call "one" []) (.ofInput [] none false)).map
        fun (result, p', console') => (result, p'.withMethods otherMethods, console') := by
  have hnames : ∀ start : List String, (∀ name ∈ start, name ∈ ["main", "missing", "one"]) →
      ∀ name, MayCall branching.method? start name →
        branching.method? name = (branching.withMethods otherMethods).method? name := by
    intro start hstart name h
    have hmem : name ∈ ["main", "missing", "one"] := by
      refine h.least hstart fun caller m hcaller hm name hname => ?_
      simp only [List.mem_cons, List.not_mem_nil, or_false] at hcaller
      rcases hcaller with rfl | rfl | rfl
      · obtain rfl : branchingMain = m := Option.some.inj hm
        revert name
        decide
      · cases hm
      · obtain rfl : oneMethod = m := Option.some.inj hm
        revert name
        decide
    simp only [List.mem_cons, List.not_mem_nil, or_false] at hmem
    rcases hmem with rfl | rfl | rfl <;> rfl
  have hentry := hnames (branching.entry.toList ++ Stmt.allCallees branching.fields) (by decide)
  have hmatter := only_callable_methods_matter branching otherMethods 16 (.ofInput [] none false)
  exact ⟨hentry, hmatter.1 hentry, hmatter.2 (.call "one" []) (hnames _ (by decide))⟩

end Program

end MethodLang
