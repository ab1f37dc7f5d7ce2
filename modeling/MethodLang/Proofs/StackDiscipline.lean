import Mathlib
import MethodLang.Proofs.Lexical.Runs
import MethodLang.Proofs.Trace.Orderly

/-!
# Stack discipline

Scopes are indices, and an index is of use only while the scope is live. Evaluation reads and
changes frames of live scopes only, and releases scopes in the reverse of the order in which it
opens them, the root never; so do all runs and evaluations of a program, whatever was done with the
program before and whether or not it failed.

* `Scopes.Visits` says which frames a look-up reads, link by link;
* `descending_lasting` says that parents stay older than their children, which keeps every walk
  among live scopes;
* `Program.Reachable` collects the programs that operations lead to; between them only the root is
  live (`Reachable.only_root`);
* `Program.uses_only_live_scopes` is the discipline for all of them.
-/

namespace MethodLang

namespace Scopes

variable {s t : Scopes} {scope id holder : ScopeId} {name : String} {slot : Slot}

/-! ### Walks -/

/-- The scopes whose frames a look-up reads: the one in which it starts, and the parent of each that
it reads and that does not bind the name. -/
inductive Visits (s : Scopes) (name : String) (scope : ScopeId) : ScopeId → Prop
  | here : Visits s name scope scope
  | up {id p : ScopeId} (h : Visits s name scope id) (hnone : (s.slotsAt id).find? name = none)
      (hp : s.link? id = some (some p)) : Visits s name scope p

/-- Every parent is older than its child. -/
def Descending (s : Scopes) : Prop := ∀ id p, s.link? id = some (some p) → p.index < id.index

theorem link?_of_parent? {p : ScopeId} (h : s.parent? id = some p) :
    s.link? id = some (some p) := by
  simp only [parent?, Option.bind_eq_some_iff, Option.filter_eq_some_iff] at h
  obtain ⟨frame, hframe, hp, -⟩ := h
  simp [link?, hframe, hp]

theorem live_of_link? {parent : Option ScopeId} (h : s.link? id = some parent) : s.Live id := by
  simp [live_iff_link?, h]

theorem Descending.parent?_eq (h : s.Descending) {p : ScopeId} (hp : s.link? id = some (some p)) :
    s.parent? id = some p := by
  simp [parent?_eq_link?, hp, h id p hp]

/-- A walk goes down, so it stays among live scopes. -/
theorem Descending.live_of_visits (h : s.Descending) (hl : s.Live scope)
    (hv : s.Visits name scope id) : s.Live id := by
  induction hv with
  | here => exact hl
  | up _ _ hp ih => exact Nat.lt_trans (h _ _ hp) ih

/-- A look-up from a scope that a walk has reached finds what the look-up from its start finds. -/
theorem Descending.resolve_eq_of_visits (h : s.Descending) (hl : s.Live scope)
    (hv : s.Visits name scope id) : s.resolve id name = s.resolve scope name := by
  induction hv with
  | here => rfl
  | @up id p hv hnone hp ih =>
    rw [resolve_of_live (h.live_of_visits hl hv), hnone, h.parent?_eq hp] at ih
    exact ih

/-- What a walk from the parent reads, a walk reads that goes on to the parent. -/
theorem Visits.of_parent {p : ScopeId} (h : s.Visits name p id)
    (hnone : (s.slotsAt scope).find? name = none) (hp : s.link? scope = some (some p)) :
    s.Visits name scope id := by
  induction h with
  | here => exact .up .here hnone hp
  | up _ hnone' hp' ih => exact .up ih hnone' hp'

/-- A look-up that finds a slot has walked to its scope. -/
theorem visits_of_resolve (hl : s.Live scope) (hr : s.resolve scope name = some (holder, slot)) :
    s.Visits name scope holder := by
  induction scope, hl using Live.induction with
  | step scope hl ih =>
    rw [resolve_of_live hl] at hr
    cases hf : (s.slotsAt scope).find? name with
    | some found =>
      rw [hf] at hr
      cases hr
      exact .here
    | none =>
      rw [hf] at hr
      obtain ⟨p, hp, hr⟩ := Option.bind_eq_some_iff.1 hr
      exact (ih p hp hr).of_parent hf (link?_of_parent? hp)

/-- A look-up finds what a frame that it reads has under the name, and nothing else. -/
theorem Descending.resolve_eq_some_iff (h : s.Descending) (hl : s.Live scope) :
    s.resolve scope name = some (holder, slot) ↔
      s.Visits name scope holder ∧ (s.slotsAt holder).find? name = some slot := by
  constructor
  · intro hr
    exact ⟨visits_of_resolve hl hr, find?_of_resolve hr⟩
  · rintro ⟨hv, hfind⟩
    rw [← h.resolve_eq_of_visits hl hv, resolve_of_live (h.live_of_visits hl hv), hfind]

/-! ### What keeps parents older -/

theorem Descending.of_links (h : s.Descending)
    (ht : ∀ id p, t.link? id = some (some p) → s.link? id = some (some p)) : t.Descending :=
  fun id p hp => h id p (ht id p hp)

theorem descending_initial : initial.Descending := by
  intro id p hp
  obtain rfl : id = root := ScopeId.ext (Nat.lt_one_iff.1 (live_of_link? hp))
  cases hp

theorem Descending.push (h : s.Descending) {parent : Option ScopeId}
    (hparent : ∀ p ∈ parent, s.Live p) : (s.push parent).Descending := by
  intro id p hp
  rw [link?, frame?_push] at hp
  by_cases hid : id = s.next
  · subst hid
    rw [if_pos rfl] at hp
    exact hparent p (Option.some.inj hp)
  · rw [if_neg hid] at hp
    exact h id p hp

theorem Descending.put (h : s.Descending) (holder : ScopeId) (name : String) (slot : Slot) :
    (s.put holder name slot).Descending :=
  h.of_links fun id p hp => by rwa [← SameLinks.put s holder name slot id]

theorem Descending.release (h : s.Descending) (scope : ScopeId) : (s.release scope).Descending :=
  h.of_links fun id p hp => by rwa [link?, extends_release s scope id (live_of_link? hp)]

theorem descending_lasting : Lasting Descending where
  enter h hp := h.push hp
  declare h _ _ _ slot := h.put _ _ slot
  assign h _ slot := h.put _ _ slot
  release h _ _ := h.release _

end Scopes

/-! ### Executions -/

/-- A use of live scopes only: of all whose frames are read, among which is the one where the slot
is found. The scope that is released is the last one, and not the root. -/
def Moment.Safe (moment : Moment) : Prop :=
  match moment.use with
  | .find scope name | .declare scope name | .assign scope name =>
    (∀ id, moment.arena.Visits name scope id → moment.arena.Live id) ∧
      ∀ holder slot, moment.arena.resolve scope name = some (holder, slot) ↔
        moment.arena.Visits name scope holder ∧
          (moment.arena.slotsAt holder).find? name = some slot
  | .enter parent => ∀ p ∈ parent, moment.arena.Live p
  | .release scope => scope.index + 1 = moment.arena.size ∧ scope ≠ Scopes.root

theorem Moment.Orderly.safe {moment : Moment} (h : moment.Orderly Scopes.Descending) :
    moment.Safe := by
  obtain ⟨arena, use⟩ := moment
  obtain ⟨hdescending, huse⟩ := h
  have hwalk : ∀ scope name, arena.Live scope →
      (∀ id, arena.Visits name scope id → arena.Live id) ∧
        ∀ holder slot, arena.resolve scope name = some (holder, slot) ↔
          arena.Visits name scope holder ∧ (arena.slotsAt holder).find? name = some slot :=
    fun scope name hl => ⟨fun id hv => hdescending.live_of_visits hl hv, fun holder slot =>
      hdescending.resolve_eq_some_iff hl⟩
  cases use with
  | find scope name | assign scope name => exact hwalk scope name huse
  | declare scope name => exact hwalk scope name huse.1
  | enter | release => exact huse

/-- Whatever is executed, with its record, from a machine: parents are older than their children at
every moment of the record and every use is safe, and at the end, after an error too, the scopes are
those with which it began. -/
structure Traced.Disciplined {α : Type} (x : Traced α) (y : Action Machine α) (m : Machine) :
    Prop where
  traces : (x m).2 = y m
  descending : ∀ moment ∈ (x m).1, moment.arena.Descending
  safe : ∀ moment ∈ (x m).1, moment.Safe
  leaves : (y m).Leaves fun m' => m.scopes.SameLinks m'.scopes

theorem Traced.disciplined {α : Type} {x : Traced α} {y : Action Machine α} {m : Machine}
    (htraces : x.Traces y) (horderly : x.Orderly Scopes.Descending m.scopes)
    (h : m.scopes.Descending) : x.Disciplined y m := by
  obtain ⟨hmoments, hleaves⟩ := horderly m ⟨h, .refl _⟩
  constructor
  · exact htraces m
  · exact fun moment hmoment => (hmoments moment hmoment).1
  · exact fun moment hmoment => (hmoments moment hmoment).safe
  · rw [← htraces m]
    exact hleaves.mono fun m' hm' => hm'.links

/-! ### Programs -/

namespace Program

/-- The programs that operations lead to. An operation that fails may still change the program, as
a run does: what it leaves is reachable in any case. -/
inductive Reachable : Program → Prop
  | empty (limit : Nat) : Reachable (.empty limit)
  | ofTree {tree : Tree} {limit : Nat} {p : Program} (h : ofTree tree limit = .ok p) : Reachable p
  | setName {p : Program} (h : Reachable p) (name : String) : Reachable (p.setName name)
  | addField {p : Program} (h : Reachable p) (field : Stmt) : Reachable (p.addField field)
  | register {p : Program} (h : Reachable p) (m : Method) : Reachable (p.register m).2
  | setEntry {p : Program} (h : Reachable p) (name : String) : Reachable (p.setEntry name)
  | run {p p' : Program} {n : Nat} {console console' : Console} {result : Except EvalError Unit}
      (h : Reachable p) (hrun : p.run n console = some (result, p', console')) : Reachable p'
  | evaluate {p p' : Program} {n : Nat} {e : Expr} {console console' : Console}
      {result : Except EvalError Value} (h : Reachable p)
      (heval : p.evaluate n e console = some (result, p', console')) : Reachable p'

variable {p p' : Program}

theorem scopes_register (p : Program) (m : Method) : (p.register m).2.scopes = p.scopes := by
  rw [register]
  split <;> rfl

theorem scopes_of_addMethod {m : Method} (h : p.addMethod m = .ok p') : p'.scopes = p.scopes := by
  rw [addMethod] at h
  split at h
  · next q hq =>
    cases h
    rw [← scopes_register p m, hq]
  · cases h

theorem scopes_of_ofTree {tree : Tree} {limit : Nat} (h : ofTree tree limit = .ok p) :
    p.scopes = .initial := by
  have hfold : ∀ (decls : List MethodDecl) (p₀ : Program),
      decls.foldlM (fun p decl => p.addMethod (.ofDecl decl)) p₀ = .ok p →
      p.scopes = p₀.scopes := by
    intro decls
    induction decls with
    | nil =>
      rintro p₀ ⟨⟩
      rfl
    | cons decl decls ih =>
      intro p₀ hp
      rw [List.foldlM_cons] at hp
      cases hadd : p₀.addMethod (.ofDecl decl) with
      | error e =>
        rw [hadd] at hp
        cases hp
      | ok p₁ =>
        rw [hadd] at hp
        rw [ih p₁ hp, scopes_of_addMethod hadd]
  exact hfold _ _ h

theorem action_disciplined (p : Program) (n : Nat) (entry : String) (console : Console) :
    (Traced.action p n entry).Disciplined (p.action n entry) ⟨.initial, #[], console⟩ :=
  Traced.disciplined (Traced.traces_action n p entry)
    (Traced.orderly_action Scopes.descending_lasting p n entry) Scopes.descending_initial

theorem evalExpr_disciplined (hp : Scopes.initial.SameLinks p.scopes) (n : Nat) (e : Expr)
    (console : Console) :
    (Traced.evalExpr p.setting n Scopes.root e).Disciplined (evalExpr p.setting n Scopes.root e)
      ⟨p.scopes, #[], console⟩ := by
  apply Traced.disciplined (Traced.traces_evalExpr _ _ _ _)
  · apply Traced.orderly_evalExpr Scopes.descending_lasting
    exact hp.live_iff.2 Scopes.live_initial_root
  · exact Scopes.descending_initial.of_links fun id p hid => by rwa [← hp id]

/-- Between operations the root alone is live. -/
theorem Reachable.only_root (h : p.Reachable) : Scopes.initial.SameLinks p.scopes := by
  induction h with
  | empty limit => exact .refl _
  | ofTree h =>
    rw [scopes_of_ofTree h]
    exact .refl _
  | setName _ _ ih | addField _ _ ih | setEntry _ _ ih => exact ih
  | register _ m ih => rwa [scopes_register]
  | @run p p' n console console' result _ hrun ih =>
    cases hentry : p.entry with
    | none =>
      simp only [Program.run, hentry, Option.some.injEq, Prod.mk.injEq] at hrun
      obtain ⟨-, rfl, -⟩ := hrun
      exact ih
    | some entry =>
      obtain ⟨m, hm, rfl, -⟩ := leaves_of_run hentry (p.action_disciplined n entry console).leaves
        hrun
      exact hm
  | evaluate _ heval ih =>
    obtain ⟨m, hm, rfl, -⟩ := leaves_of_after (evalExpr_disciplined ih _ _ _).leaves heval
    exact ih.trans hm

/-- After any sequence of operations, each of which may have failed, the root is the only scope of
the program. Whatever is then run or evaluated, for however many steps and on any console, every
look-up, declaration and assignment reads and changes frames of live scopes only, every release is
that of the last scope, and the root is never released. -/
theorem uses_only_live_scopes (h : p.Reachable) (n : Nat) (console : Console) :
    p.scopes.size = 1 ∧
    (∀ entry, (Traced.action p n entry).Disciplined (p.action n entry)
      ⟨.initial, #[], console⟩) ∧
    ∀ e, (Traced.evalExpr p.setting n Scopes.root e).Disciplined
      (evalExpr p.setting n Scopes.root e) ⟨p.scopes, #[], console⟩ :=
  ⟨h.only_root.size, fun entry => p.action_disciplined n entry console, fun e =>
    evalExpr_disciplined h.only_root n e console⟩

/-- The tree of `doubling`. -/
def doublingTree : Tree where
  name := "doubling"
  fields := [.declare "limit" ⟨"int"⟩, .assign "limit" (.int 2)]
  methods := [
    ⟨"main", none, [], [
      .block [.declare "t" ⟨"int"⟩, .assign "t" (.call "twice" [.var "limit"]),
        .write [.expr (.var "t")]],
      .assign "limit" (.int 5)]⟩,
    ⟨"twice", some ⟨"int"⟩, ["x"], [.assign "twice" (.binary (.var "x") .add (.var "x"))]⟩]
  entry := some "main"

/-- What is evaluated in `doubling` after a run fails while the scope of the method is open. -/
theorem doubling_uses_only_live_scopes :
    ofTree doublingTree 3 = .ok doubling ∧
    ∃ p, doubling.run 9 (.ofInput [] none false) = some (.ok (), p, doubledConsole) ∧
      p.Reachable ∧ p.scopes.size = 1 ∧
      evalExpr p.setting 9 Scopes.root (.call "twice" [.var "x"])
        ⟨p.scopes, #[], doubledConsole⟩ =
          .failed (.undeclaredVariable "x") ⟨p.scopes, #[], doubledConsole⟩ ∧
      ∃ moments, (Traced.evalExpr p.setting 9 Scopes.root (.call "twice" [.var "x"])
          ⟨p.scopes, #[], doubledConsole⟩).1 = moments ∧
        moments.map Moment.use = [.enter none, .find Scopes.root "x", .release ⟨1⟩] ∧
        ∀ moment ∈ moments, moment.Safe := by
  have htree : ofTree doublingTree 3 = .ok doubling := by rfl
  have hreachable : Reachable { doubling with scopes := ⟨#[⟨none, doubled⟩]⟩ } :=
    .run (.ofTree htree) run_doubling
  obtain ⟨hsize, -, heval⟩ := uses_only_live_scopes hreachable 9 doubledConsole
  exact ⟨htree, _, run_doubling, hreachable, hsize, by cbv, _, rfl, by cbv,
    (heval (.call "twice" [.var "x"])).safe⟩

end Program

end MethodLang
