import Mathlib.Data.List.Forall2
import MethodLang.Proofs.Leaves
import MethodLang.Proofs.Lexical.Basic

/-!
# The lexical footprint of statements

How an environment evolves under a statement: no name is lost and no type changes; a slot keeps
its contents unless its name is a target of the statement, and an assigned slot stays assigned;
new names appear in front only, and only those that the statement declares outside its blocks.

Whatever is built by sequencing, calling and opening scopes evolves environments as its parts do
(`Evolving`), which leaves one case for each statement.
-/

namespace MethodLang

/-! ### Declarations and targets -/

mutual

/-- The names that a statement declares outside the blocks in it. -/
def Stmt.declares : Stmt → List String
  | .declare name _ => [name]
  | .seq body => Stmt.allDeclares body
  | .ite _ yes no => yes.declares ++ Stmt.optionDeclares no
  | .doWhile _ body => body.declares
  | .assign .. | .block _ | .brk | .ret | .read _ | .write _ | .invoke _ => []

def Stmt.optionDeclares : Option Stmt → List String
  | none => []
  | some st => st.declares

def Stmt.allDeclares : List Stmt → List String
  | [] => []
  | st :: rest => st.declares ++ Stmt.allDeclares rest

end

mutual

/-- The names that a statement assigns or reads into, in its blocks too. -/
def Stmt.targets : Stmt → List String
  | .assign name _ => [name]
  | .read targets => targets
  | .block body | .seq body => Stmt.allTargets body
  | .ite _ yes no => yes.targets ++ Stmt.optionTargets no
  | .doWhile _ body => body.targets
  | .declare .. | .brk | .ret | .write _ | .invoke _ => []

def Stmt.optionTargets : Option Stmt → List String
  | none => []
  | some st => st.targets

def Stmt.allTargets : List Stmt → List String
  | [] => []
  | st :: rest => st.targets ++ Stmt.allTargets rest

end

/-! ### Bindings -/

/-- Later bindings of a scope: every slot is still there with its type, assigned if it was, and
unchanged if its name is no target; names that are new are among the `declared`. -/
structure Bindings.Evolve (declared targets : String → Prop) (b b' : Bindings) : Prop where
  keep : ∀ name slot, b.find? name = some slot →
    ∃ slot', b'.find? name = some slot' ∧ slot'.ty = slot.ty ∧
      (slot.assigned → slot'.assigned) ∧ (¬targets name → slot' = slot)
  new : ∀ name, b.find? name = none → b'.find? name ≠ none → declared name

namespace Bindings.Evolve

variable {D D' T T' : String → Prop} {b b' b'' : Bindings} {name : String}

theorem refl (D T : String → Prop) (b : Bindings) : b.Evolve D T b :=
  ⟨fun _ slot h => ⟨slot, h, rfl, id, fun _ => rfl⟩, fun _ h h' => absurd h h'⟩

theorem trans (h : b.Evolve D T b') (h' : b'.Evolve D T b'') : b.Evolve D T b'' where
  keep name slot hb := by
    obtain ⟨slot', hb', hty, hassigned, hsame⟩ := h.keep name slot hb
    obtain ⟨slot'', hb'', hty', hassigned', hsame'⟩ := h'.keep name slot' hb'
    exact ⟨slot'', hb'', hty'.trans hty, hassigned' ∘ hassigned,
      fun ht => (hsame' ht).trans (hsame ht)⟩
  new name hb hb'' := by
    cases hb' : b'.find? name with
    | none => exact h'.new name hb' hb''
    | some slot => exact h.new name hb (by simp [hb'])

theorem mono (h : b.Evolve D T b') (hD : ∀ x, D x → D' x) (hT : ∀ x, T x → T' x) :
    b.Evolve D' T' b' where
  keep name slot hb := by
    obtain ⟨slot', hb', hty, hassigned, hsame⟩ := h.keep name slot hb
    exact ⟨slot', hb', hty, hassigned, fun ht => hsame (mt (hT name) ht)⟩
  new name hb hb' := hD name (h.new name hb hb')

/-- A name that was not bound is bound. -/
theorem insert_new (h : b.find? name = none) (hD : D name) (T : String → Prop) (slot : Slot) :
    b.Evolve D T (b.insert name slot) where
  keep other old hold := by
    have hne : other ≠ name := by
      rintro rfl
      simp [h] at hold
    exact ⟨old, by rw [find?_insert, if_neg hne, hold], rfl, id, fun _ => rfl⟩
  new other hother hnew := by
    rw [find?_insert] at hnew
    split at hnew
    · next heq => exact heq ▸ hD
    · exact absurd hother hnew

/-- A slot is assigned. -/
theorem insert_assigned {old : Slot} (h : b.find? name = some old) (hT : T name)
    (D : String → Prop) (value : Value) :
    b.Evolve D T (b.insert name ⟨old.ty, true, value⟩) where
  keep other slot hslot := by
    by_cases heq : other = name
    · subst heq
      obtain rfl : old = slot := Option.some.inj (h.symm.trans hslot)
      refine ⟨⟨old.ty, true, value⟩, ?_, rfl, fun _ => rfl, fun ht => absurd hT ht⟩
      rw [find?_insert, if_pos rfl]
    · exact ⟨slot, by rw [find?_insert, if_neg heq, hslot], rfl, id, fun _ => rfl⟩
  new other hother hnew := by
    rw [find?_insert] at hnew
    split at hnew
    · next heq => simp [heq, h] at hother
    · exact absurd hother hnew

end Bindings.Evolve

/-! ### Environments -/

/-- No name. -/
abbrev noName (_ : String) : Prop := False

/-- A later environment: the bindings evolve, and new names appear in front only. -/
inductive Env.Evolve (declared targets : String → Prop) : Env → Env → Prop
  | nil : Env.Evolve declared targets [] []
  | cons {b b' : Bindings} {rest rest' : Env} (front : b.Evolve declared targets b')
      (behind : List.Forall₂ (Bindings.Evolve noName targets) rest rest') :
      Env.Evolve declared targets (b :: rest) (b' :: rest')

namespace Env.Evolve

variable {D D' T T' : String → Prop} {env env' env'' : Env} {name : String}

theorem forall₂_trans (h : List.Forall₂ (Bindings.Evolve D T) env env')
    (h' : List.Forall₂ (Bindings.Evolve D T) env' env'') :
    List.Forall₂ (Bindings.Evolve D T) env env'' := by
  induction h generalizing env'' with
  | nil => exact h'
  | cons hb _ ih =>
    cases h' with
    | cons hb' hrest => exact .cons (hb.trans hb') (ih hrest)

theorem refl (D T : String → Prop) (env : Env) : env.Evolve D T env := by
  cases env with
  | nil => exact .nil
  | cons b rest => exact .cons (.refl D T b) (List.forall₂_same.2 fun b _ => .refl _ T b)

theorem trans (h : env.Evolve D T env') (h' : env'.Evolve D T env'') : env.Evolve D T env'' := by
  cases h with
  | nil => exact h'
  | cons hfront hbehind =>
    cases h' with
    | cons hfront' hbehind' => exact .cons (hfront.trans hfront') (forall₂_trans hbehind hbehind')

theorem mono (h : env.Evolve D T env') (hD : ∀ x, D x → D' x) (hT : ∀ x, T x → T' x) :
    env.Evolve D' T' env' := by
  cases h with
  | nil => exact .nil
  | cons hfront hbehind =>
    exact .cons (hfront.mono hD hT) (hbehind.imp fun _ _ hb => hb.mono (fun _ => id) hT)

/-- Without new names, the front evolves as what is behind it. -/
theorem of_forall₂ (h : List.Forall₂ (Bindings.Evolve noName T) env env') :
    env.Evolve D T env' := by
  cases h with
  | nil => exact .nil
  | cons hb hrest => exact .cons (hb.mono (fun _ => False.elim) fun _ => id) hrest

theorem introduce {slot : Slot} (h : env.introduce name slot = .ok env') (hD : D name)
    (T : String → Prop) : env.Evolve D T env' := by
  rw [Env.introduce] at h
  cases hs : env.slot? name with
  | some old => simp [hs] at h
  | none =>
    rw [hs] at h
    cases h
    cases env with
    | nil => exact .nil
    | cons b rest =>
      rw [slot?_cons, Option.or_eq_none_iff] at hs
      exact .cons (.insert_new hs.1 hD T slot) (List.forall₂_same.2 fun b _ => .refl _ T b)

theorem store {old : Slot} (h : env.slot? name = some old) (hT : T name) (value : Value) :
    List.Forall₂ (Bindings.Evolve noName T) env (env.store name ⟨old.ty, true, value⟩) := by
  induction env with
  | nil => exact .nil
  | cons b rest ih =>
    rw [slot?_cons] at h
    cases hb : b.find? name with
    | some slot =>
      rw [hb, Option.some_or, Option.some.injEq] at h
      subst h
      rw [store_cons_of_find? hb]
      exact .cons (.insert_assigned hb hT _ value) (List.forall₂_same.2 fun b _ => .refl _ T b)
    | none =>
      rw [hb, Option.none_or] at h
      rw [store_cons_of_not_find? hb]
      exact .cons (.refl _ T b) (ih h)

theorem assign {value : Value} (h : env.assign name value = .ok env') (hT : T name)
    (D : String → Prop) : env.Evolve D T env' := by
  rw [Env.assign] at h
  cases hs : env.slot? name with
  | none => simp [hs] at h
  | some old =>
    simp only [hs] at h
    split at h
    · cases h
      exact of_forall₂ (store hs hT value)
    · cases h

end Env.Evolve

namespace Lexical

/-! ### Actions -/

/-- The environment of a later state has evolved. -/
def State.Evolve (D T : String → Prop) (s s' : State) : Prop := s.env.Evolve D T s'.env

instance (D T : String → Prop) : IsPreorder State (State.Evolve D T) where
  refl s := Env.Evolve.refl D T s.env
  trans _ _ _ h h' := Env.Evolve.trans h h'

/-- Whatever an action leaves, its environment has evolved. -/
abbrev Evolving {α : Type} (D T : String → Prop) (x : Action State α) : Prop :=
  x.Keeps (State.Evolve D T)

namespace Evolving

variable {α : Type} {D D' T T' : String → Prop} {x : Action State α}

theorem mono (h : Evolving D T x) (hD : ∀ name, D name → D' name)
    (hT : ∀ name, T name → T' name) : Evolving D' T' x :=
  Action.Keeps.mono h fun _ _ hs => Env.Evolve.mono hs hD hT

theorem evaluating (eval : Env → Action Console α) : Evolving D T (evaluating eval) := by
  intro s
  rw [Lexical.evaluating, Outcome.leaves_mapState]
  exact Outcome.leaves_of_forall (fun _ => Env.Evolve.refl D T s.env) _

theorem query (f : Env → Except EvalError α) : Evolving D T (query f) := by
  intro s
  rw [Lexical.query]
  cases f s.env <;> exact Env.Evolve.refl D T s.env

theorem onConsole (f : Console → Except ConsoleError α × Console) : Evolving D T (onConsole f) := by
  intro s
  rw [Lexical.onConsole]
  rcases f s.console with ⟨_ | _, c⟩ <;> exact Env.Evolve.refl D T s.env

theorem update {f : Env → Except EvalError Env}
    (h : ∀ env env', f env = .ok env' → env.Evolve D T env') : Evolving D T (update f) := by
  intro s
  rw [Lexical.update]
  cases hf : f s.env with
  | ok env => exact h s.env env hf
  | error e => exact Env.Evolve.refl D T s.env

/-- What is declared in front is dropped, so that no name is new. -/
theorem inFront (h : Evolving D T x) : Evolving D' T (inFront x) := by
  intro s
  rw [Lexical.inFront, Outcome.leaves_mapState]
  refine (h _).mono fun s' hs' => ?_
  obtain ⟨env, c⟩ := s'
  cases hs' with
  | cons _ hbehind => exact Env.Evolve.of_forall₂ hbehind

theorem readAll (targets : List String) (hT : ∀ name ∈ targets, T name) :
    Evolving D T (readAll targets) := by
  induction targets with
  | nil => exact .pure ()
  | cons target rest ih =>
    rw [List.forall_mem_cons] at hT
    refine (onConsole _).bind fun n => ?_
    exact (update fun env env' h => .assign h hT.1 D).bind fun _ => ih hT.2

theorem writeAll (eval : Env → Expr → Action Console Value) (items : List WriteItem) :
    Evolving D T (writeAll eval items) := by
  induction items with
  | nil => exact .pure ()
  | cons item rest ih =>
    cases item with
    | text content => exact (onConsole _).bind fun _ => ih
    | expr value =>
      refine (evaluating _).bind fun v => ?_
      cases v.render? with
      | none => exact .fail _
      | some content => exact (onConsole _).bind fun _ => ih

theorem bindArgs (eval : Expr → Action Console Value) (miscount : EvalError)
    (params : List String) (args : List Expr) (hD : ∀ name ∈ params, D name) :
    Evolving D T (bindArgs eval miscount params args) := by
  induction args generalizing params with
  | nil =>
    cases params with
    | nil => exact .pure ()
    | cons => exact .fail _
  | cons arg args ih =>
    cases params with
    | nil => exact (evaluating _).bind fun _ => .fail _
    | cons param params =>
      rw [List.forall_mem_cons] at hD
      refine (evaluating _).bind fun value => ?_
      exact (update fun env env' h => .introduce h hD.1 T).bind fun _ => ih params hD.2

/-- Statements in order evolve an environment as each of them does. -/
theorem execAll {exec : Stmt → Action State Signal} (body : List Stmt)
    (h : ∀ st, Evolving (· ∈ st.declares) (· ∈ st.targets) (exec st)) :
    Evolving (· ∈ Stmt.allDeclares body) (· ∈ Stmt.allTargets body) (execAll exec body) := by
  induction body with
  | nil => exact .pure _
  | cons st rest ih =>
    refine Action.Keeps.bind ((h st).mono ?_ ?_) fun signal => ?_
    · exact fun _ hx => List.mem_append_left _ hx
    · exact fun _ hx => List.mem_append_left _ hx
    · cases signal with
      | normal =>
        exact ih.mono (fun _ hx => List.mem_append_right _ hx)
          fun _ hx => List.mem_append_right _ hx
      | brk | ret => exact .pure _

theorem execOption {exec : Stmt → Action State Signal} (no : Option Stmt)
    (h : ∀ st, Evolving (· ∈ st.declares) (· ∈ st.targets) (exec st)) :
    Evolving (· ∈ Stmt.optionDeclares no) (· ∈ Stmt.optionTargets no) (execOption exec no) := by
  cases no with
  | none => exact .pure _
  | some st => exact h st

theorem findResult (act : Activation) : Evolving D T (findResult act) := by
  rw [Lexical.findResult]
  split
  · exact .pure _
  · exact (query _).bind fun _ => .pure _

/-- The lexical footprint of a statement. -/
theorem execStmt (w : Setting) (n : Nat) (act : Activation) (st : Stmt) :
    Evolving (· ∈ st.declares) (· ∈ st.targets) (execStmt w n act st) := by
  induction n generalizing act st with
  | zero => exact fun _ => trivial
  | succ n ih =>
    cases st with
    | declare name ty =>
      rw [Lexical.execStmt]
      refine (update fun env env' h => ?_).bind fun _ => .pure _
      exact .introduce h List.mem_cons_self _
    | assign name value =>
      rw [Lexical.execStmt]
      refine (evaluating _).bind fun v => (update fun env env' h => ?_).bind fun _ => .pure _
      exact .assign h List.mem_cons_self _
    | block body =>
      rw [Lexical.execStmt]
      exact inFront (execAll body fun st => ih act st)
    | seq body =>
      rw [Lexical.execStmt]
      exact execAll body fun st => ih act st
    | ite cond yes no =>
      rw [Lexical.execStmt]
      refine (evaluating _).bind fun v => (Action.Keeps.ofExcept _).bind fun truth => ?_
      cases truth with
      | true =>
        exact (ih act yes).mono (fun _ hx => List.mem_append_left _ hx)
          fun _ hx => List.mem_append_left _ hx
      | false =>
        exact (execOption no fun st => ih act st).mono (fun _ hx => List.mem_append_right _ hx)
          fun _ hx => List.mem_append_right _ hx
    | doWhile cond body =>
      rw [Lexical.execStmt]
      refine Action.Keeps.bind (ih act body) fun signal => ?_
      cases signal with
      | brk | ret => exact .pure _
      | normal =>
        refine (evaluating _).bind fun v => (Action.Keeps.ofExcept _).bind fun truth => ?_
        cases truth with
        | true => exact ih act (.doWhile cond body)
        | false => exact .pure _
    | brk => exact .pure _
    | ret =>
      rw [Lexical.execStmt]
      exact (findResult act).bind fun _ => .pure _
    | read targets =>
      rw [Lexical.execStmt]
      exact (readAll targets fun _ => id).bind fun _ => .pure _
    | write items =>
      rw [Lexical.execStmt]
      exact (writeAll _ items).bind fun _ => (onConsole _).bind fun _ => .pure _
    | invoke value =>
      rw [Lexical.execStmt]
      exact (evaluating _).bind fun _ => .pure _

/-- A method leaves no name behind. -/
theorem callMethod (w : Setting) (n : Nat) (eval : Expr → Action Console Value) (depth : Nat)
    (name : String) (args : List Expr) :
    Evolving noName (fun _ => True) (callMethod w eval (Lexical.execStmt w n) depth name args) := by
  rw [Lexical.callMethod]
  split
  · exact .fail _
  · next m _ =>
    split
    · exact .fail _
    · refine inFront (D := fun _ => True) ?_
      refine (bindArgs eval _ m.params args fun _ _ => trivial).bind fun _ => ?_
      refine (update fun env env' h => .introduce h trivial _).bind fun _ => ?_
      refine ((execAll m.body fun st => execStmt w n _ st).mono ?_ ?_).bind fun _ => ?_
      · exact fun _ _ => trivial
      · exact fun _ _ => trivial
      · split
        · exact .pure _
        · exact query _

end Evolving

end Lexical

end MethodLang
