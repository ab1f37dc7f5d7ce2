import MethodLang.Proofs.Leaves
import MethodLang.Proofs.Scopes.Agree
import MethodLang.Proofs.Trace.Basic

/-!
# Orderly use of the arena

Evaluation looks up and assigns in live scopes, declares in live scopes that no scope hangs under,
opens scopes under live ones, and releases the scope that it opened last, which is never the root.
So it keeps whatever such uses keep, at every moment and at the end.

While a statement runs, the live scopes and their parents are those with which it began: whatever
it opens it releases again. This is the invariant that carries the induction (`Holds`); that a
scope is live, and that none hangs under it, depend on nothing else.

* `Scopes.Lasting` collects what orderly uses must keep;
* `Orderly.inScope` carries it into a new scope and out of it;
* `orderly_evalExpr_execStmt` says that all evaluation is orderly.
-/

namespace MethodLang

namespace Scopes

variable {s t : Scopes} {scope : ScopeId}

/-! ### Scopes that none hangs under -/

/-- No scope hangs under this one: none has it as the parent that look-ups follow. -/
def Leaf (s : Scopes) (scope : ScopeId) : Prop := ∀ id, s.parent? id ≠ some scope

theorem SameLinks.leaf (h : s.SameLinks t) (hleaf : s.Leaf scope) : t.Leaf scope := by
  intro id
  rw [parent?_eq_link?, h, ← parent?_eq_link?]
  exact hleaf id

/-- No scope hangs under a new one. -/
theorem leaf_push_next (s : Scopes) (parent : Option ScopeId) : (s.push parent).Leaf s.next := by
  intro id hid
  have hlt : s.size < id.index := parent?_lt hid
  have hl : ¬(s.push parent).Live id := by
    rw [Live, size_push]
    omega
  rw [parent?, frame?_eq_none_iff.2 (Nat.le_of_not_lt hl)] at hid
  cases hid

theorem leaf_initial_root : initial.Leaf root := by
  intro id hid
  have hl : initial.Live id := by
    rw [live_iff_frame?]
    cases hf : initial.frame? id with
    | none => simp [parent?, hf] at hid
    | some frame => exact ⟨frame, rfl⟩
  have hlt : root.index < id.index := parent?_lt hid
  simp only [Live, size_initial] at hl
  omega

/-! ### What orderly uses keep -/

/-- A property of arenas that lasts while scopes are opened under live ones, names are declared in
live scopes that none hangs under, slots are assigned, and scopes are released in the order in which
they were opened. -/
structure Lasting (I : Scopes → Prop) : Prop where
  enter {s : Scopes} {parent : Option ScopeId} (h : I s) (hp : ∀ p ∈ parent, s.Live p) :
    I (s.push parent)
  declare {s : Scopes} {scope : ScopeId} {name : String} (h : I s) (hl : s.Live scope)
    (hleaf : s.Leaf scope) (hr : s.resolve scope name = none) (slot : Slot) :
    I (s.put scope name slot)
  assign {s : Scopes} {scope holder : ScopeId} {name : String} {old : Slot} (h : I s)
    (hr : s.resolve scope name = some (holder, old)) (slot : Slot) : I (s.put holder name slot)
  release {s t : Scopes} {parent : Option ScopeId} (h : I t) (hs : 0 < s.size)
    (ht : (s.push parent).SameLinks t) : I (t.release s.next)

end Scopes

/-- A use as it should be, of an arena with a property. -/
def Moment.Orderly (I : Scopes → Prop) (moment : Moment) : Prop :=
  I moment.arena ∧
  match moment.use with
  | .find scope _ | .assign scope _ => moment.arena.Live scope
  | .declare scope _ => moment.arena.Live scope ∧ moment.arena.Leaf scope
  | .enter parent => ∀ p ∈ parent, moment.arena.Live p
  | .release scope => scope.index + 1 = moment.arena.size ∧ scope ≠ Scopes.root

/-- The arena has a property, and the scopes of another with their parents. -/
structure Machine.Holds (I : Scopes → Prop) (base : Scopes) (m : Machine) : Prop where
  property : I m.scopes
  links : base.SameLinks m.scopes

namespace Traced

open Scopes (Lasting SameLinks)

variable {α β : Type} {I : Scopes → Prop} {base : Scopes} {scope : ScopeId}
  {parent : Option ScopeId} {name : String}

/-- Where the arena has the property and the scopes of `base`, all uses are orderly, and the arena
has both at the end. -/
def Orderly (I : Scopes → Prop) (base : Scopes) (x : Traced α) : Prop :=
  ∀ m : Machine, m.Holds I base →
    (∀ moment ∈ (x m).1, moment.Orderly I) ∧ (x m).2.Leaves (Machine.Holds I base)

namespace Orderly

/-- An action that leaves the scopes alone. -/
theorem quiet {x : Action Machine α}
    (h : ∀ m, (x m).Leaves fun m' => m'.scopes = m.scopes) : (quiet x).Orderly I base := by
  intro m hm
  constructor
  · intro moment hmoment
    cases hmoment
  · refine (h m).mono fun m' hm' => ?_
    exact ⟨hm' ▸ hm.property, hm' ▸ hm.links⟩

protected theorem pure (a : α) : (Pure.pure a : Traced α).Orderly I base := quiet fun _ => rfl

theorem fail (e : EvalError) : (Traced.quiet (.fail e) : Traced α).Orderly I base :=
  quiet fun _ => rfl

theorem unfinished : (Traced.quiet .unfinished : Traced α).Orderly I base := quiet fun _ => trivial

theorem ofExcept (r : Except EvalError α) : (Traced.quiet (.ofExcept r)).Orderly I base := by
  cases r with
  | ok a => exact .pure a
  | error e => exact fail e

theorem depth : (Traced.quiet .depth).Orderly I base := quiet fun _ => rfl

theorem innermost : (Traced.quiet .innermost).Orderly I base := quiet fun _ => rfl

theorem onConsole (f : Console → Except ConsoleError α × Console) :
    (Traced.quiet (.onConsole f)).Orderly I base := by
  apply quiet
  intro m
  simp only [Action.onConsole]
  rcases f m.console with ⟨e | a, console⟩
  · rfl
  · rfl

protected theorem bind {x : Traced α} {f : α → Traced β} (h : x.Orderly I base)
    (hf : ∀ a, (f a).Orderly I base) : (x >>= f).Orderly I base := by
  intro m hm
  obtain ⟨hmoments, hleaves⟩ := h m hm
  simp only [Bind.bind, Traced.bind]
  generalize x m = ends at hmoments hleaves ⊢
  obtain ⟨moments, ends⟩ := ends
  cases ends with
  | done a m' =>
    obtain ⟨hmoments', hleaves'⟩ := hf a m' hleaves
    refine ⟨fun moment hmoment => ?_, hleaves'⟩
    rcases List.mem_append.1 hmoment with hmoment | hmoment
    · exact hmoments moment hmoment
    · exact hmoments' moment hmoment
  | failed e m' => exact ⟨hmoments, hleaves⟩
  | unfinished => exact ⟨hmoments, trivial⟩

theorem find {f : Scopes → Except EvalError α} (hl : base.Live scope) (name : String) :
    (noting (fun s => [⟨s, .find scope name⟩]) (.query f)).Orderly I base := by
  intro m hm
  constructor
  · intro moment hmoment
    obtain rfl := List.mem_singleton.1 hmoment
    exact ⟨hm.property, hm.links.live_iff.2 hl⟩
  · simp only [noting, Action.query]
    cases f m.scopes with
    | ok a => exact hm
    | error e => exact hm

/-- An update of the arena leaves what it should, if it does so whenever it succeeds. -/
theorem leaves_update {u : Scopes.Update} (hu : u.Atomic) {m : Machine} (hm : m.Holds I base)
    (h : ∀ t, u.result m.scopes = .ok t → I t ∧ m.scopes.SameLinks t) :
    (Action.update u m).Leaves (Machine.Holds I base) :=
  Action.leaves_update hu hm fun t ht => ⟨(h t ht).1, hm.links.trans (h t ht).2⟩

theorem declare (hI : Lasting I) (hl : base.Live scope) (hleaf : base.Leaf scope) (name : String)
    (ty : Ty) : (declare scope name ty).Orderly I base := by
  intro m hm
  have hlive : m.scopes.Live scope := hm.links.live_iff.2 hl
  constructor
  · intro moment hmoment
    obtain rfl := List.mem_singleton.1 hmoment
    exact ⟨hm.property, hlive, hm.links.leaf hleaf⟩
  · apply leaves_update (.declare scope name ty) hm
    intro t ht
    obtain ⟨hr, rfl⟩ := Scopes.declare_eq_ok_iff.1 ht
    exact ⟨hI.declare hm.property hlive (hm.links.leaf hleaf) hr _, .put _ _ _ _⟩

theorem assign (hI : Lasting I) (hl : base.Live scope) (name : String) (value : Value) :
    (assign scope name value).Orderly I base := by
  intro m hm
  constructor
  · intro moment hmoment
    obtain rfl := List.mem_singleton.1 hmoment
    exact ⟨hm.property, hm.links.live_iff.2 hl⟩
  · apply leaves_update (.assign scope name value) hm
    intro t ht
    obtain ⟨holder, slot, hr, -, rfl⟩ := Scopes.assign_eq_ok_iff.1 ht
    exact ⟨hI.assign hm.property hr _, .put _ _ _ _⟩

theorem declareAndAssign (hI : Lasting I) (hl : base.Live scope) (hleaf : base.Leaf scope)
    (name : String) (value : Value) : (declareAndAssign scope name value).Orderly I base := by
  intro m hm
  have hlive : m.scopes.Live scope := hm.links.live_iff.2 hl
  constructor
  · intro moment hmoment
    rcases List.mem_cons.1 hmoment with rfl | hmoment
    · exact ⟨hm.property, hlive, hm.links.leaf hleaf⟩
    · cases hdeclare : m.scopes.declare scope name value.ty with
      | ok t =>
        rw [hdeclare] at hmoment
        obtain rfl := List.mem_singleton.1 hmoment
        obtain ⟨hr, rfl⟩ := Scopes.declare_eq_ok_iff.1 hdeclare
        exact ⟨hI.declare hm.property hlive (hm.links.leaf hleaf) hr _, Scopes.live_put_iff.2 hlive⟩
      | error e =>
        rw [hdeclare] at hmoment
        cases hmoment
  · apply leaves_update (.declareAndAssign scope name value) hm
    intro t ht
    obtain ⟨-, hr, rfl⟩ := Scopes.declareAndAssign_eq_ok_iff.1 ht
    exact ⟨hI.declare hm.property hlive (hm.links.leaf hleaf) hr _, .put _ _ _ _⟩

/-- What is done in a new scope is done on the arena with that scope. -/
theorem inScope (hI : Lasting I) (hs : 0 < base.size) (hp : ∀ p ∈ parent, base.Live p)
    {body : ScopeId → Traced α} (h : (body base.next).Orderly I (base.push parent)) :
    (inScope parent body).Orderly I base := by
  intro m hm
  have hlive : ∀ p ∈ parent, m.scopes.Live p := fun p hmem => hm.links.live_iff.2 (hp p hmem)
  have hpush : Machine.Holds I (base.push parent) { m with scopes := m.scopes.push parent } :=
    ⟨hI.enter hm.property hlive, hm.links.push parent⟩
  obtain ⟨hmoments, hleaves⟩ := h _ hpush
  rw [← hm.links.next] at hmoments hleaves
  constructor
  · intro moment hmoment
    rw [Traced.inScope, List.cons_append, List.mem_cons, List.mem_append] at hmoment
    rcases hmoment with rfl | hmoment | hmoment
    · exact ⟨hm.property, hlive⟩
    · exact hmoments moment hmoment
    · exact released_orderly hs hm.links hleaves hmoment
  · rw [Traced.inScope, Outcome.leaves_mapState]
    refine hleaves.mono fun m' hm' => ?_
    rw [hm.links.next]
    exact ⟨hI.release hm'.property hs hm'.links, .release hs hm'.links⟩
where
  /-- The scope that is released is the last one, and lies above another. -/
  released_orderly {ends : Outcome Machine α} {m : Machine} {moment : Moment}
      (hs : 0 < base.size) (hm : base.SameLinks m.scopes)
      (hleaves : ends.Leaves (Machine.Holds I (base.push parent)))
      (hmoment : moment ∈ released m.scopes.next ends) : moment.Orderly I := by
    rw [hm.next] at hmoment
    cases ends with
    | done a m' | failed e m' =>
      obtain rfl := List.mem_singleton.1 hmoment
      refine ⟨hleaves.property, ?_, ?_⟩
      · show base.size + 1 = m'.scopes.size
        rw [hleaves.links.size, Scopes.size_push]
      · intro hroot
        have hzero : base.size = 0 := congrArg ScopeId.index hroot
        omega
    | unfinished => cases hmoment

theorem inCall {x : Traced α} (name : String) (h : x.Orderly I base) :
    (inCall name x).Orderly I base := by
  intro m hm
  obtain ⟨hmoments, hleaves⟩ := h { m with calls := m.calls.push name } ⟨hm.property, hm.links⟩
  refine ⟨hmoments, ?_⟩
  rw [Traced.inCall, Outcome.leaves_mapState]
  exact hleaves.mono fun m' hm' => ⟨hm'.property, hm'.links⟩

/-! ### Lists inside statements and calls -/

theorem execAll {exec : Stmt → Traced Signal} (h : ∀ st, (exec st).Orderly I base)
    (body : List Stmt) : (execAll exec body).Orderly I base := by
  induction body with
  | nil => exact .pure _
  | cons st rest ih =>
    refine (h st).bind fun signal => ?_
    cases signal with
    | normal => exact ih
    | brk | ret => exact .pure _

theorem execOption {exec : Stmt → Traced Signal} (h : ∀ st, (exec st).Orderly I base)
    (no : Option Stmt) : (execOption exec no).Orderly I base := by
  cases no with
  | none => exact .pure _
  | some st => exact h st

variable {eval : Expr → Traced Value}

theorem bindArgs (hI : Lasting I) (hl : base.Live scope) (hleaf : base.Leaf scope)
    {args : List Expr} (h : ∀ arg ∈ args, (eval arg).Orderly I base) (miscount : EvalError)
    (params : List String) : (bindArgs eval scope miscount params args).Orderly I base := by
  induction args generalizing params with
  | nil =>
    cases params with
    | nil => exact .pure _
    | cons param params => exact .fail _
  | cons arg args ih =>
    rw [List.forall_mem_cons] at h
    cases params with
    | nil => exact h.1.bind fun _ => .fail _
    | cons param params =>
      refine h.1.bind fun value => ?_
      exact (Orderly.declareAndAssign hI hl hleaf param value).bind fun _ => ih h.2 params

theorem writeAll (h : ∀ e, (eval e).Orderly I base) (items : List WriteItem) :
    (writeAll eval items).Orderly I base := by
  induction items with
  | nil => exact .pure _
  | cons item rest ih =>
    cases item with
    | text content => exact (Orderly.onConsole _).bind fun _ => ih
    | expr value =>
      refine (h value).bind fun v => ?_
      cases v.render? with
      | none => exact .fail _
      | some content => exact (Orderly.onConsole _).bind fun _ => ih

theorem readAll (hI : Lasting I) (hl : base.Live scope) (targets : List String) :
    (readAll scope targets).Orderly I base := by
  induction targets with
  | nil => exact .pure _
  | cons target rest ih =>
    exact (Orderly.onConsole _).bind fun n =>
      (Orderly.assign hI hl target (.int n)).bind fun _ => ih

theorem findResult (hl : base.Live scope) : (findResult scope).Orderly I base := by
  refine Orderly.innermost.bind fun name => ?_
  cases name with
  | none => exact .pure _
  | some name => exact (Orderly.find hl name).bind fun _ => .pure _

/-! ### Calls -/

variable {exec : ScopeId → Stmt → Traced Signal}

theorem runMethod (hI : Lasting I) (hl : base.Live scope) (hleaf : base.Leaf scope)
    (h : ∀ st, (exec scope st).Orderly I base) (m : Method) :
    (runMethod exec scope m).Orderly I base := by
  refine (Orderly.declare hI hl hleaf m.name .int).bind fun _ => ?_
  refine (Orderly.inCall m.name (.execAll h m.body)).bind fun _ => ?_
  split
  · exact .pure _
  · exact .find hl m.name

/-- Arguments are evaluated while the scope of the method is open. Parameters and the result are
declared in that scope, and nothing hangs under it then. -/
theorem callMethod (hI : Lasting I) (w : Setting) (hs : 0 < base.size)
    (hp : ∀ p ∈ parent, base.Live p) {args : List Expr}
    (heval : ∀ arg ∈ args, (eval arg).Orderly I (base.push parent))
    (hexec : ∀ st, (exec base.next st).Orderly I (base.push parent)) (name : String) :
    (callMethod w eval exec parent name args).Orderly I base := by
  rw [Traced.callMethod]
  cases w.method? name with
  | none => exact .fail _
  | some m =>
    refine Orderly.depth.bind fun depth => ?_
    split
    · exact .fail _
    · refine .inScope hI hs hp ?_
      have hlive := Scopes.live_push_next base parent
      have hleaf := Scopes.leaf_push_next base parent
      exact (Orderly.bindArgs hI hlive hleaf heval _ _).bind fun _ =>
        .runMethod hI hlive hleaf hexec m

end Orderly

/-! ### Expressions and statements -/

variable (hI : Lasting I) (w : Setting)

include hI

/-- Expressions are orderly in every live scope, and statements in those that none hangs under. -/
theorem orderly_evalExpr_execStmt (n : Nat) :
    (∀ base scope e, base.Live scope → (evalExpr w n scope e).Orderly I base) ∧
      ∀ base scope st, base.Live scope → base.Leaf scope →
        (execStmt w n scope st).Orderly I base := by
  induction n with
  | zero => exact ⟨fun _ _ _ _ => .unfinished, fun _ _ _ _ _ => .unfinished⟩
  | succ n ih =>
    obtain ⟨heval, hexec⟩ := ih
    -- in a scope that is opened now, statements are orderly
    have hopened : ∀ (base : Scopes) (parent : Option ScopeId) st,
        (execStmt w n base.next st).Orderly I (base.push parent) := fun base parent st =>
      hexec _ _ st (Scopes.live_push_next base parent) (Scopes.leaf_push_next base parent)
    constructor
    · intro base scope e hl
      cases e with
      | lit l => exact .pure _
      | var name => exact .find hl name
      | binary lhs op rhs =>
        rw [evalExpr]
        refine (heval base scope lhs hl).bind fun l => (heval base scope rhs hl).bind fun r => ?_
        exact .ofExcept _
      | call name args =>
        rw [evalExpr]
        refine .callMethod hI w hl.size_pos (by simp) (fun arg _ => ?_) (hopened base none) name
        exact heval _ scope arg ((Scopes.extends_push base none).live hl)
    · intro base scope st hl hleaf
      cases st with
      | declare name ty =>
        rw [execStmt]
        exact (Orderly.declare hI hl hleaf name _).bind fun _ => .pure _
      | assign name value =>
        rw [execStmt]
        refine (heval base scope value hl).bind fun v => ?_
        exact (Orderly.assign hI hl name v).bind fun _ => .pure _
      | block body =>
        rw [execStmt]
        exact .inScope hI hl.size_pos (by simpa using hl)
          (.execAll (hopened base (some scope)) body)
      | seq body =>
        rw [execStmt]
        exact .execAll (fun st => hexec base scope st hl hleaf) body
      | ite cond yes no =>
        rw [execStmt]
        refine (heval base scope cond hl).bind fun v => (Orderly.ofExcept _).bind fun truth => ?_
        cases truth with
        | true => exact hexec base scope yes hl hleaf
        | false => exact .execOption (fun st => hexec base scope st hl hleaf) no
      | doWhile cond body =>
        rw [execStmt]
        refine (hexec base scope body hl hleaf).bind fun signal => ?_
        cases signal with
        | brk | ret => exact .pure _
        | normal =>
          refine (heval base scope cond hl).bind fun v => (Orderly.ofExcept _).bind fun truth => ?_
          cases truth with
          | true => exact hexec base scope (.doWhile cond body) hl hleaf
          | false => exact .pure _
      | brk => exact .pure _
      | ret =>
        rw [execStmt]
        exact (Orderly.findResult hl).bind fun _ => .pure _
      | read targets =>
        rw [execStmt]
        exact (Orderly.readAll hI hl targets).bind fun _ => .pure _
      | write items =>
        rw [execStmt]
        refine (Orderly.writeAll (fun e => heval base scope e hl) items).bind fun _ => ?_
        exact (Orderly.onConsole _).bind fun _ => .pure _
      | invoke value =>
        rw [execStmt]
        exact (heval base scope value hl).bind fun _ => .pure _

theorem orderly_evalExpr (n : Nat) (hl : base.Live scope) (e : Expr) :
    (evalExpr w n scope e).Orderly I base :=
  (orderly_evalExpr_execStmt hI w n).1 base scope e hl

theorem orderly_execStmt (n : Nat) (hl : base.Live scope) (hleaf : base.Leaf scope) (st : Stmt) :
    (execStmt w n scope st).Orderly I base :=
  (orderly_evalExpr_execStmt hI w n).2 base scope st hl hleaf

theorem orderly_execAll (n : Nat) (hl : base.Live scope) (hleaf : base.Leaf scope)
    (body : List Stmt) : (execAll (execStmt w n scope) body).Orderly I base :=
  .execAll (orderly_execStmt hI w n hl hleaf) body

theorem orderly_invoke (n : Nat) (hl : base.Live scope) (name : String) (args : List Expr) :
    (invoke w n scope name args).Orderly I base := by
  refine .callMethod hI w hl.size_pos (by simp) (fun arg _ => ?_) (fun st => ?_) name
  · exact orderly_evalExpr hI w n ((Scopes.extends_push base none).live hl) arg
  · exact orderly_execStmt hI w n (Scopes.live_push_next base none)
      (Scopes.leaf_push_next base none) st

/-- The entry method is called from the root, whatever hangs under it. -/
theorem orderly_invokeEntry (n : Nat) (hl : base.Live Scopes.root) (name : String) :
    (invokeEntry w n name).Orderly I base := by
  refine .callMethod hI w hl.size_pos (by simpa using hl) (by simp) (fun st => ?_) name
  exact orderly_execStmt hI w n (Scopes.live_push_next base _) (Scopes.leaf_push_next base _) st

/-- A run begins on the initial arena. -/
theorem orderly_action (p : Program) (n : Nat) (entry : String) :
    (action p n entry).Orderly I .initial :=
  (orderly_execAll hI p.setting n Scopes.live_initial_root Scopes.leaf_initial_root p.fields).bind
    fun _ => orderly_invokeEntry hI p.setting n Scopes.live_initial_root entry

end Traced

end MethodLang
