import MethodLang.Proofs.Evaluation
import MethodLang.Proofs.Lexical.Footprint

/-!
# The footprint of statements

`execution_footprint` says what a statement may change, after an error too: nothing off the chain
of its scope, no parent link, no active call; in the scopes around its own only the contents of
slots that it assigns or reads into; in its own scope this and new names, which it declares
outside its blocks. A run leaves the root scope alone, with names that the fields declare outside
their blocks.
-/

namespace MethodLang

open Lexical (Sees Evolving evalsAs_execsAs)

/-- What a statement in a scope may have changed between two arenas. -/
structure Scopes.Footprint (scope : ScopeId) (st : Stmt) (s t : Scopes) : Prop where
  /-- The same scopes are live. -/
  size : t.size = s.size
  /-- Every scope has its parent still. -/
  link : ∀ id, t.link? id = s.link? id
  /-- Off the chain nothing changes. -/
  frame : ∀ id, id ∉ s.chain scope → t.frame? id = s.frame? id
  /-- The scopes around have the same names with the same types. -/
  around : ∀ id ∈ s.chain scope, id ≠ scope → ∀ name,
    ((t.slotsAt id).find? name).map Slot.ty = ((s.slotsAt id).find? name).map Slot.ty
  /-- The scope itself keeps its names and their types. -/
  keep : ∀ name slot, (s.slotsAt scope).find? name = some slot →
    ((t.slotsAt scope).find? name).map Slot.ty = some slot.ty
  /-- A new name is declared by the statement, outside its blocks. -/
  new : ∀ name, (s.slotsAt scope).find? name = none → (t.slotsAt scope).find? name ≠ none →
    name ∈ st.declares
  /-- A slot changes only if the statement assigns or reads into its name. -/
  untargeted : ∀ id name slot, (s.slotsAt id).find? name = some slot → name ∉ st.targets →
    (t.slotsAt id).find? name = some slot
  /-- An assigned slot stays assigned. -/
  assigned : ∀ id name slot, (s.slotsAt id).find? name = some slot → slot.assigned →
    ∃ slot', (t.slotsAt id).find? name = some slot' ∧ slot'.assigned

/-! ### From environments to scopes -/

namespace Scopes

variable {s t : Scopes} {scope id : ScopeId} {D T : String → Prop}

theorem evolve_slotsAt_self (h : s.Live scope) (hagree : AgreeOff (s.chain scope) s t)
    (henv : (s.env scope).Evolve D T (t.env scope)) :
    (s.slotsAt scope).Evolve D T (t.slotsAt scope) := by
  rw [env, env, hagree.chain, chain_of_live h] at henv
  cases henv with
  | cons hfront _ => exact hfront

theorem evolve_slotsAt_around (h : s.Live scope) (hagree : AgreeOff (s.chain scope) s t)
    (henv : (s.env scope).Evolve D T (t.env scope)) (hid : id ∈ s.chain scope) (hne : id ≠ scope) :
    (s.slotsAt id).Evolve noName T (t.slotsAt id) := by
  rw [env, env, hagree.chain, chain_of_live h] at henv
  rw [chain_of_live h, List.mem_cons] at hid
  cases henv with
  | cons _ hbehind =>
    rw [List.forall₂_map_left_iff, List.forall₂_map_right_iff, List.forall₂_same] at hbehind
    exact hbehind id (hid.resolve_left hne)

/-- In every scope the bindings have evolved. -/
theorem evolve_slotsAt (h : s.Live scope) (hagree : AgreeOff (s.chain scope) s t)
    (henv : (s.env scope).Evolve D T (t.env scope)) (id : ScopeId) :
    (s.slotsAt id).Evolve D T (t.slotsAt id) := by
  by_cases hid : id ∈ s.chain scope
  · by_cases hne : id = scope
    · subst hne
      exact evolve_slotsAt_self h hagree henv
    · exact (evolve_slotsAt_around h hagree henv hid hne).mono (fun _ => False.elim)
        fun _ hx => hx
  · rw [slotsAt_congr (hagree.frame id hid)]
    exact .refl D T _

end Scopes

theorem Bindings.Evolve.map_ty {T : String → Prop} {b b' : Bindings} (h : b.Evolve noName T b')
    (name : String) : (b'.find? name).map Slot.ty = (b.find? name).map Slot.ty := by
  cases hb : b.find? name with
  | some slot =>
    obtain ⟨slot', hb', hty, -⟩ := h.keep name slot hb
    rw [hb', Option.map_some, Option.map_some, hty]
  | none =>
    cases hb' : b'.find? name with
    | none => rfl
    | some slot => exact (h.new name hb (by simp [hb'])).elim

theorem Scopes.Footprint.of_evolve {s t : Scopes} {scope : ScopeId} {st : Stmt}
    (h : s.Live scope) (hagree : AgreeOff (s.chain scope) s t)
    (henv : (s.env scope).Evolve (· ∈ st.declares) (· ∈ st.targets) (t.env scope)) :
    Footprint scope st s t where
  size := hagree.size
  link := hagree.link
  frame := hagree.frame
  around id hid hne name := (evolve_slotsAt_around h hagree henv hid hne).map_ty name
  keep name slot hslot := by
    obtain ⟨slot', hslot', hty, -⟩ := (evolve_slotsAt_self h hagree henv).keep name slot hslot
    rw [hslot', Option.map_some, hty]
  new := (evolve_slotsAt_self h hagree henv).new
  untargeted id name slot hslot hname := by
    obtain ⟨slot', hslot', -, -, hsame⟩ := (evolve_slotsAt h hagree henv id).keep name slot hslot
    rw [hslot', hsame hname]
  assigned id name slot hslot hassigned := by
    obtain ⟨slot', hslot', -, hkeep, -⟩ := (evolve_slotsAt h hagree henv id).keep name slot hslot
    exact ⟨slot', hslot', hkeep hassigned⟩

/-! ### Statements and runs -/

theorem execStmt_footprint {m : Machine} {scope : ScopeId} (h : m.scopes.Live scope) (w : Setting)
    (n : Nat) (st : Stmt) :
    (execStmt w n scope st m).Leaves fun m' =>
      m'.calls = m.calls ∧ m.scopes.Footprint scope st m'.scopes := by
  have hself := Sees.self m (some scope)
  have hlexical := (evalsAs_execsAs w n).2 m.scopes m.calls scope st h m _ hself
  refine hlexical.leaves (Evolving.execStmt w n _ st _) fun m' l' hm' hl' => ⟨hm'.calls, ?_⟩
  rw [Lexical.State.Evolve, ← hm'.env] at hl'
  exact .of_evolve h hm'.agree hl'

/-- An arena with the scopes of the initial one holds the root alone. -/
theorem Scopes.AgreeOff.eq_root {touched : List ScopeId} {t : Scopes}
    (h : AgreeOff touched initial t) : t = ⟨#[⟨none, t.slotsAt root⟩]⟩ := by
  apply ext_frame
  rintro ⟨i⟩
  cases i with
  | zero =>
    obtain ⟨⟨parent, slots⟩, hf⟩ := live_iff_frame?.1 (h.live_iff.2 live_initial_root)
    have hlink : some parent = some none := by
      rw [← show t.link? root = some parent by rw [link?, hf]; rfl]
      exact h.link root
    obtain rfl := Option.some.inj hlink
    change t.frame? root = some ⟨none, t.slotsAt root⟩
    rw [slotsAt, hf]
    rfl
  | succ i =>
    rw [frame?_eq_none_iff.2 (by rw [h.size]; exact Nat.le_add_left 1 i)]
    rfl

/-- What a program leaves, when it is run on scopes that hold nothing yet. -/
theorem Program.action_leaves (p : Program) (n : Nat) (entry : String) (console : Console) :
    (p.action n entry ⟨.initial, #[], console⟩).Leaves fun m' =>
      ∃ b : Bindings, m'.scopes = ⟨#[⟨none, b⟩]⟩ ∧ ∀ name ∈ b.names,
        name ∈ Stmt.allDeclares p.fields := by
  have hlexical := Lexical.alike_action p n entry _ _ (Lexical.sees_initial console)
  have hevolving : Evolving (· ∈ Stmt.allDeclares p.fields) (fun _ => True)
      (Lexical.action p n entry) := by
    have hfields := Evolving.execAll p.fields fun st => Evolving.execStmt p.setting n .idle st
    refine Action.Keeps.bind (Evolving.mono hfields ?_ ?_) fun _ => ?_
    · exact fun _ hx => hx
    · exact fun _ _ => trivial
    · exact (Evolving.callMethod p.setting n _ 0 entry []).mono (fun _ => False.elim) fun _ => id
  refine hlexical.leaves (hevolving _) fun m' l' hm' hl' => ?_
  refine ⟨m'.scopes.slotsAt Scopes.root, hm'.agree.eq_root, fun name hname => ?_⟩
  rw [Lexical.State.Evolve, ← hm'.env, Scopes.envAbove_some, ← Scopes.env_initial] at hl'
  have hroot := Scopes.evolve_slotsAt_self Scopes.live_initial_root hm'.agree hl'
  exact hroot.new name rfl (Bindings.find?_ne_none_of_mem_names hname)

/-- The footprint of a statement and of a run. After a statement, ended or failed, the active calls
are as before and the arena differs within the footprint of the statement. After a run with an
entry method, ended or failed, the root scope is left alone, and binds no names but those that the
fields declare outside their blocks. -/
theorem execution_footprint :
    (∀ (w : Setting) (n : Nat) (scope : ScopeId) (st : Stmt) (m : Machine), m.scopes.Live scope →
      (execStmt w n scope st m).Leaves fun m' =>
        m'.calls = m.calls ∧ m.scopes.Footprint scope st m'.scopes) ∧
    ∀ (p : Program) (n : Nat) (console : Console) (result : Except EvalError Unit) (p' : Program)
      (console' : Console), p.entry ≠ none → p.run n console = some (result, p', console') →
      ∃ b : Bindings, p'.scopes = ⟨#[⟨none, b⟩]⟩ ∧ ∀ name ∈ b.names,
        name ∈ Stmt.allDeclares p.fields := by
  refine ⟨fun w n scope st m h => execStmt_footprint h w n st, ?_⟩
  intro p n console result p' console' hentry hrun
  obtain ⟨entry, he⟩ := Option.ne_none_iff_exists'.1 hentry
  obtain ⟨m, hm, rfl, -⟩ := Program.leaves_of_run he (p.action_leaves n entry console) hrun
  exact hm

/-- Declare a variable of `main`, and assign the field from within a block. -/
def assignLimit : Stmt :=
  .seq [.declare "u" ⟨"int"⟩, .block [.declare "v" ⟨"int"⟩, .assign "limit" (.int 3)]]

theorem execution_footprint_in_main :
    inMain.scopes.Live ⟨1⟩ ∧
    (execStmt Program.doubling.setting 9 ⟨1⟩ assignLimit inMain).Leaves (fun m' =>
      m'.calls = inMain.calls ∧ inMain.scopes.Footprint ⟨1⟩ assignLimit m'.scopes) ∧
    Program.doubling.entry ≠ none ∧
    Program.doubling.run 9 (.ofInput [] none false) =
      some (.ok (), { Program.doubling with scopes := ⟨#[⟨none, Program.doubled⟩]⟩ },
        Program.doubledConsole) ∧
    ∃ b : Bindings, (⟨#[⟨none, Program.doubled⟩]⟩ : Scopes) = ⟨#[⟨none, b⟩]⟩ ∧ ∀ name ∈ b.names,
      name ∈ Stmt.allDeclares Program.doubling.fields := by
  have hlive : inMain.scopes.Live ⟨1⟩ := by decide
  have hentry : Program.doubling.entry ≠ none := by simp [Program.doubling]
  exact ⟨hlive, execution_footprint.1 _ _ _ _ _ hlive, hentry, Program.run_doubling,
    execution_footprint.2 _ _ _ _ _ _ hentry Program.run_doubling⟩

end MethodLang
