import Mathlib
import MethodLang.Proofs.Evaluation
import MethodLang.Proofs.Trace.Orderly

/-!
# Shadowing

An arena is unambiguous if no two scopes on a chain bind one name. That a name is declared only
where it is not visible is not enough to keep an arena so: a declaration in the parent of a scope
does not see what the scope binds. Evaluation keeps it, because it declares only in scopes that no
scope hangs under.

* `unambiguous_lasting` says that orderly uses keep an arena unambiguous;
* `nothing_is_shadowed` says that arenas stay unambiguous at every moment of an execution and after
  it, so that a look-up or an assignment in a run has at most one slot to choose.
-/

namespace MethodLang

namespace Scopes

variable {s t : Scopes} {scope id holder : ScopeId} {name other : String} {slot : Slot}

/-- A scope itself declares a name. -/
def Binds (s : Scopes) (id : ScopeId) (name : String) : Prop := (s.slotsAt id).find? name ≠ none

/-- At most one scope on a chain declares the name. -/
def BoundOnce (s : Scopes) (scope : ScopeId) (name : String) : Prop :=
  ∀ a ∈ s.chain scope, ∀ b ∈ s.chain scope, s.Binds a name → s.Binds b name → a = b

/-- Each name is declared by at most one scope on the chain of every live scope. -/
def Unambiguous (s : Scopes) : Prop := ∀ scope, s.Live scope → ∀ name, s.BoundOnce scope name

/-! ### Names that a scope declares -/

theorem Binds.live (h : s.Binds id name) : s.Live id := by
  by_contra hl
  apply h
  rw [slotsAt, frame?_eq_none_iff.2 (Nat.le_of_not_lt hl)]
  rfl

theorem binds_congr (h : t.frame? id = s.frame? id) : t.Binds id name ↔ s.Binds id name := by
  rw [Binds, slotsAt_congr h, Binds]

theorem not_binds_push_next (s : Scopes) (parent : Option ScopeId) (name : String) :
    ¬(s.push parent).Binds s.next name := by
  simp [Binds, slotsAt, frame?_push]

theorem not_binds_initial (id : ScopeId) (name : String) : ¬initial.Binds id name := by
  intro h
  obtain rfl : id = root := ScopeId.ext (Nat.lt_one_iff.1 h.live)
  exact h rfl

theorem binds_put_iff :
    (s.put holder name slot).Binds id other ↔
      s.Binds id other ∨ id = holder ∧ s.Live holder ∧ other = name := by
  by_cases hid : id = holder
  · subst hid
    by_cases hl : s.Live id
    · rw [Binds, slotsAt_put_self hl, Bindings.find?_insert, Binds]
      by_cases hname : other = name
      · simp [hname, hl]
      · simp [hname]
    · have hput : ¬(s.put id name slot).Live id := mt live_put_iff.1 hl
      simp [mt Binds.live hl, mt Binds.live hput, hl]
  · rw [Binds, slotsAt_put_of_ne hid, Binds]
    simp [hid]

theorem resolve_eq_none_iff :
    s.resolve scope name = none ↔ ∀ id ∈ s.chain scope, ¬s.Binds id name := by
  simp [resolve_eq_findSome?, List.findSome?_eq_none_iff, own?_eq, Binds]

theorem binds_of_resolve (h : s.resolve scope name = some (holder, slot)) :
    s.Binds holder name := by
  rw [Binds, find?_of_resolve h]
  exact Option.some_ne_none slot

/-- A scope that none hangs under is on no chain but its own. -/
theorem Leaf.eq_of_mem_chain (hleaf : s.Leaf id) (h : id ∈ s.chain scope) : id = scope := by
  have hl : s.Live scope := by
    by_contra hl
    simp [chain_of_not_live hl] at h
  induction scope, hl using Live.induction with
  | step scope hl ih =>
    rw [chain_of_live hl, List.mem_cons] at h
    rcases h with rfl | h
    · rfl
    · cases hp : s.parent? scope with
      | none => simp [hp] at h
      | some p =>
        rw [hp] at h
        obtain rfl := ih p hp h
        exact absurd hp (hleaf scope)

/-! ### What keeps an arena unambiguous -/

theorem unambiguous_initial : initial.Unambiguous := by
  intro scope _ name a _ b _ ha
  exact absurd ha (not_binds_initial a name)

/-- Chains of the smaller arena are chains of the larger. -/
theorem Unambiguous.of_extends (ht : t.Unambiguous) (h : s.Extends t) : s.Unambiguous := by
  intro scope hl name a ha b hb hbinds hbinds'
  have hchain := h.chain hl
  apply ht scope (h.live hl) name a (hchain ▸ ha) b (hchain ▸ hb)
  · exact (binds_congr (h a hbinds.live)).2 hbinds
  · exact (binds_congr (h b hbinds'.live)).2 hbinds'

theorem Unambiguous.push {parent : Option ScopeId} (h : s.Unambiguous)
    (hp : ∀ p ∈ parent, s.Live p) : (s.push parent).Unambiguous := by
  have hextends := extends_push s parent
  -- on the chain of a live scope of the old arena nothing has changed
  have hold : ∀ p, s.Live p → ∀ name, ∀ a ∈ s.chain p, ∀ b ∈ s.chain p,
      (s.push parent).Binds a name → (s.push parent).Binds b name → a = b := by
    intro p hl name a ha b hb hbinds hbinds'
    apply h p hl name a ha b hb
    · exact (binds_congr (hextends a (live_of_mem_chain ha))).1 hbinds
    · exact (binds_congr (hextends b (live_of_mem_chain hb))).1 hbinds'
  intro scope hl name a ha b hb hbinds hbinds'
  by_cases hscope : scope = s.next
  · -- the new scope binds nothing, and the rest of its chain is old
    subst hscope
    rw [chain_push_next hp] at ha hb
    rcases List.mem_cons.1 ha with rfl | ha
    · exact absurd hbinds (not_binds_push_next s parent name)
    rcases List.mem_cons.1 hb with rfl | hb
    · exact absurd hbinds' (not_binds_push_next s parent name)
    cases parent with
    | none => simp at ha
    | some p => exact hold p (hp p rfl) name a ha b hb hbinds hbinds'
  · have hl' : s.Live scope := by
      have hlt : scope.index < (s.push parent).size := hl
      have hne : scope.index ≠ s.size := fun heq => hscope (ScopeId.ext heq)
      rw [size_push] at hlt
      show scope.index < s.size
      omega
    rw [hextends.chain hl'] at ha hb
    exact hold scope hl' name a ha b hb hbinds hbinds'

/-- A declaration where the name is not visible, in a scope that none hangs under. -/
theorem Unambiguous.put_new (h : s.Unambiguous) (hleaf : s.Leaf scope)
    (hr : s.resolve scope name = none) (slot : Slot) :
    (s.put scope name slot).Unambiguous := by
  intro inner hl other a ha b hb hbinds hbinds'
  rw [live_put_iff] at hl
  rw [(agreeOff_put_self s scope name slot).chain] at ha hb
  rw [binds_put_iff] at hbinds hbinds'
  have hnone := resolve_eq_none_iff.1 hr
  rcases hbinds with hbinds | ⟨rfl, -, rfl⟩ <;> rcases hbinds' with hbinds' | ⟨rfl, -, hname⟩
  · exact h inner hl other a ha b hb hbinds hbinds'
  · -- the chain is that of the scope, where nobody had the name
    obtain rfl := hleaf.eq_of_mem_chain hb
    exact absurd (hname ▸ hbinds) (hnone a ha)
  · obtain rfl := hleaf.eq_of_mem_chain ha
    exact absurd hbinds' (hnone b hb)
  · rfl

/-- A binding is replaced. -/
theorem Unambiguous.put_bound (h : s.Unambiguous) (hbound : s.Binds holder name) (slot : Slot) :
    (s.put holder name slot).Unambiguous := by
  have hbinds : ∀ id other, (s.put holder name slot).Binds id other → s.Binds id other := by
    intro id other hput
    rcases binds_put_iff.1 hput with hput | ⟨rfl, -, rfl⟩
    · exact hput
    · exact hbound
  intro scope hl other a ha b hb ha' hb'
  rw [(agreeOff_put_self s holder name slot).chain] at ha hb
  exact h scope (live_put_iff.1 hl) other a ha b hb (hbinds a other ha') (hbinds b other hb')

theorem unambiguous_lasting : Lasting Unambiguous where
  enter h hp := h.push hp
  declare h _ hleaf hr slot := h.put_new hleaf hr slot
  assign h hr slot := h.put_bound (binds_of_resolve hr) slot
  release h _ _ := h.of_extends (extends_release _ _)

/-- The parent of a scope may declare what the scope has declared. -/
example :
    let s := (initial.push (some root)).put ⟨1⟩ "x" ⟨.int, false, .untyped⟩
    s.resolve root "x" = none ∧ ¬(s.put root "x" ⟨.int, false, .untyped⟩).Unambiguous := by
  refine ⟨by cbv, fun h => ?_⟩
  generalize ht : Scopes.put _ root "x" _ = t at h
  have hchain : t.chain ⟨1⟩ = [⟨1⟩, root] := by
    subst ht
    cbv
  have hinner : t.Binds ⟨1⟩ "x" := by simp [← ht, binds_put_iff, Live]
  have houter : t.Binds root "x" := by simp [← ht, binds_put_iff, Live, root]
  have heq := h ⟨1⟩ hinner.live "x" ⟨1⟩ (by simp [hchain]) root (by simp [hchain]) hinner houter
  cases heq

end Scopes

/-! ### Executions -/

/-- Whatever is executed, with its record, from a machine: the arena is unambiguous at every moment
of the record and at the end, after an error too, and names are declared only in live scopes that
none hangs under. -/
structure Traced.Unshadowed {α : Type} (x : Traced α) (y : Action Machine α) (m : Machine) :
    Prop where
  traces : (x m).2 = y m
  moments : ∀ moment ∈ (x m).1, moment.arena.Unambiguous
  targets : ∀ moment ∈ (x m).1, ∀ scope name, moment.use = .declare scope name →
    moment.arena.Live scope ∧ moment.arena.Leaf scope
  leaves : (y m).Leaves fun m' => m'.scopes.Unambiguous

theorem Traced.unshadowed {α : Type} {x : Traced α} {y : Action Machine α} {m : Machine}
    (htraces : x.Traces y) (horderly : x.Orderly Scopes.Unambiguous m.scopes)
    (h : m.scopes.Unambiguous) : x.Unshadowed y m := by
  obtain ⟨hmoments, hleaves⟩ := horderly m ⟨h, .refl _⟩
  constructor
  · exact htraces m
  · exact fun moment hmoment => (hmoments moment hmoment).1
  · intro moment hmoment scope name huse
    have huses := (hmoments moment hmoment).2
    rwa [huse] at huses
  · rw [← htraces m]
    exact hleaves.mono fun m' hm' => hm'.property

open Scopes (unambiguous_lasting) in
/-- From an unambiguous arena, in a live scope that none hangs under, statements, lists of
statements and calls keep the arena unambiguous at every use and at the end, on success and on
every error, and so does the call of the entry method. In a run every look-up and every assignment
has at most one scope to choose. -/
theorem nothing_is_shadowed :
    (∀ (w : Setting) (n : Nat) (scope : ScopeId) (m : Machine), m.scopes.Unambiguous →
      m.scopes.Live scope → m.scopes.Leaf scope →
      (∀ st, (Traced.execStmt w n scope st).Unshadowed (execStmt w n scope st) m) ∧
      (∀ body, (Traced.execAll (Traced.execStmt w n scope) body).Unshadowed
        (execAll (execStmt w n scope) body) m) ∧
      ∀ name args, (Traced.invoke w n scope name args).Unshadowed (invoke w n scope name args) m) ∧
    (∀ (w : Setting) (n : Nat) (m : Machine) (name : String), m.scopes.Unambiguous →
      m.scopes.Live Scopes.root →
      (Traced.invokeEntry w n name).Unshadowed (invokeEntry w n name) m) ∧
    (∀ (p : Program) (n : Nat) (entry : String) (console : Console),
      (Traced.action p n entry).Unshadowed (p.action n entry) ⟨.initial, #[], console⟩) ∧
    ∀ (p : Program) (n : Nat) (console : Console), ∀ moment ∈ p.runMoments n console,
      ∀ scope name, (moment.use = .find scope name ∨ moment.use = .assign scope name) →
      moment.arena.Live scope ∧ moment.arena.BoundOnce scope name := by
  refine ⟨fun w n scope m h hl hleaf => ⟨fun st => ?_, fun body => ?_, fun name args => ?_⟩,
    fun w n m name h hl => ?_, fun p n entry console => ?_, fun p n console => ?_⟩
  · exact Traced.unshadowed (Traced.traces_execStmt w n scope st)
      (Traced.orderly_execStmt unambiguous_lasting w n hl hleaf st) h
  · exact Traced.unshadowed (.execAll (Traced.traces_execStmt w n scope) body)
      (Traced.orderly_execAll unambiguous_lasting w n hl hleaf body) h
  · exact Traced.unshadowed (Traced.traces_invoke w n scope name args)
      (Traced.orderly_invoke unambiguous_lasting w n hl name args) h
  · exact Traced.unshadowed (Traced.traces_invokeEntry w n name)
      (Traced.orderly_invokeEntry unambiguous_lasting w n hl name) h
  · exact Traced.unshadowed (Traced.traces_action n p entry)
      (Traced.orderly_action unambiguous_lasting p n entry) Scopes.unambiguous_initial
  · intro moment hmoment scope name huse
    rw [Program.runMoments] at hmoment
    cases hentry : p.entry with
    | none => simp [hentry] at hmoment
    | some entry =>
      rw [hentry] at hmoment
      have horderly := Traced.orderly_action unambiguous_lasting p n entry
      obtain ⟨harena, huses⟩ :=
        (horderly ⟨.initial, #[], console⟩ ⟨Scopes.unambiguous_initial, .refl _⟩).1 moment hmoment
      have hl : moment.arena.Live scope := by
        rcases huse with huse | huse
        · rwa [huse] at huses
        · rwa [huse] at huses
      exact ⟨hl, harena scope hl name⟩

theorem nothing_is_shadowed_in_main :
    inMain.scopes.Unambiguous ∧ inMain.scopes.Live ⟨1⟩ ∧ inMain.scopes.Leaf ⟨1⟩ ∧
    ((Traced.execStmt Program.doubling.setting 9 ⟨1⟩ (.declare "t" ⟨"int"⟩)) inMain).1 =
      [⟨inMain.scopes, .declare ⟨1⟩ "t"⟩] ∧
    (execStmt Program.doubling.setting 9 ⟨1⟩ (.declare "t" ⟨"int"⟩) inMain).Leaves
      (fun m' => m'.scopes.Unambiguous) ∧
    (Traced.invokeEntry Program.doubling.setting 9 "main").Unshadowed
      (invokeEntry Program.doubling.setting 9 "main") inMain ∧
    ∃ moment ∈ Program.doubling.runMoments 9 inMain.console,
      moment.use = .find ⟨2⟩ "limit" ∧ moment.arena.BoundOnce ⟨2⟩ "limit" := by
  have hfields : (Scopes.initial.put Scopes.root "limit" ⟨.int, true, .int 2⟩).Unambiguous :=
    Scopes.unambiguous_initial.put_new Scopes.leaf_initial_root (by cbv) _
  have hmain : inMain.scopes.Unambiguous := hfields.push (by simp; decide)
  have hlive : inMain.scopes.Live ⟨1⟩ := by decide
  have hroot : inMain.scopes.Live Scopes.root := by decide
  have hleaf : inMain.scopes.Leaf ⟨1⟩ := Scopes.leaf_push_next _ _
  obtain ⟨hexec, hentry, -, hrun⟩ := nothing_is_shadowed
  have huse : (Program.doubling.runMoments 9 inMain.console).any (·.use = .find ⟨2⟩ "limit") =
      true := by cbv
  obtain ⟨moment, hmoment, huse⟩ := List.any_eq_true.1 huse
  have huse : moment.use = .find ⟨2⟩ "limit" := of_decide_eq_true huse
  refine ⟨hmain, hlive, hleaf, by cbv, ((hexec _ 9 _ _ hmain hlive hleaf).1 _).leaves,
    hentry _ 9 _ "main" hmain hroot, moment, hmoment, huse, ?_⟩
  exact (hrun _ _ _ moment hmoment _ _ (.inl huse)).2

end MethodLang
