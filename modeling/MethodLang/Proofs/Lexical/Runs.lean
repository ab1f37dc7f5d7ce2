import Mathlib
import MethodLang.Eval.Steps
import MethodLang.Proofs.Lexical.Simulation

/-!
# Runs in the lexical semantics

A program runs as the lexical semantics says: it ends if and only if the lexical run ends, and
then with the same result, the same console and the same bindings of the program.
-/

namespace MethodLang

namespace Lexical

theorem activation_empty : activation #[] = .idle := rfl

theorem alike_action (p : Program) (n : Nat) (entry : String) :
    Action.Alike (Sees .initial #[] (some Scopes.root)) (p.action n entry) (action p n entry) := by
  obtain ⟨heval, hexec⟩ := evalsAs_execsAs p.setting n
  refine Action.Alike.bind (.execAll p.fields fun st _ => ?_) fun _ => ?_
  · rw [← activation_empty]
    exact hexec .initial #[] Scopes.root st Scopes.live_initial_root
  · exact alike_callMethod p.setting Scopes.live_initial_root.size_pos
      (by simpa using Scopes.live_initial_root) entry [] (by simp) hexec

theorem sees_initial (console : Console) :
    Sees .initial #[] (some Scopes.root) ⟨.initial, #[], console⟩ ⟨[.empty], console⟩ :=
  ⟨.refl _ _, rfl, Scopes.env_initial, rfl⟩

end Lexical

namespace Program

/-- Step for step, a run has the lexical result, bindings and console. -/
theorem map_run_eq_lexical (p : Program) (n : Nat) (console : Console) :
    (p.run n console).map (fun (result, p', c) => (result, p'.scopes.env Scopes.root, c)) =
      Lexical.run p n (p.scopes.env Scopes.root) console := by
  rw [run, Lexical.run]
  cases p.entry with
  | none => rfl
  | some entry =>
    have h := Lexical.alike_action p n entry _ _ (Lexical.sees_initial console)
    simp only
    generalize p.action n entry ⟨.initial, #[], console⟩ = ends at h ⊢
    generalize Lexical.action p n entry ⟨[.empty], console⟩ = ends' at h ⊢
    cases h with
    | done h => simp [after, ← h.env, h.console]
    | failed h => simp [after, ← h.env, h.console]
    | unfinished => rfl

/-- A run ends if and only if the lexical run ends, and they end alike: with the same result, the
same bindings of the program, and the same console. -/
theorem run_refines_lexical (p : Program) (console : Console) :
    ((∃ n, p.run n console ≠ none) ↔
      ∃ n, Lexical.run p n (p.scopes.env Scopes.root) console ≠ none) ∧
    ∀ n k result p' console' result' env console'',
      p.run n console = some (result, p', console') →
      Lexical.run p k (p.scopes.env Scopes.root) console = some (result', env, console'') →
      result = result' ∧ p'.scopes.env Scopes.root = env ∧ console' = console'' := by
  constructor
  · simp only [← map_run_eq_lexical, ne_eq, Option.map_eq_none_iff]
  · intro n k result p' console' result' env console'' hrun hlexical
    rw [← map_run_eq_lexical] at hlexical
    obtain ⟨⟨result₂, p₂, console₂⟩, hk, heq⟩ := Option.map_eq_some_iff.1 hlexical
    -- both runs go on alike with as many steps as either had
    have hmax := run_eq_of_le p (Nat.le_max_left n k) console (by simp [hrun])
    rw [run_eq_of_le p (Nat.le_max_right n k) console (by simp [hk]), hk, hrun] at hmax
    cases hmax
    cases heq
    exact ⟨rfl, rfl, rfl⟩

/-- A program with a field, a method with a parameter, and a block in its entry method. -/
def doubling : Program where
  name := "doubling"
  fields := [.declare "limit" ⟨"int"⟩, .assign "limit" (.int 2)]
  methods := [
    .ofDecl ⟨"twice", some ⟨"int"⟩, ["x"], [.assign "twice" (.binary (.var "x") .add (.var "x"))]⟩,
    .ofDecl ⟨"main", none, [], [
      .block [.declare "t" ⟨"int"⟩, .assign "t" (.call "twice" [.var "limit"]),
        .write [.expr (.var "t")]],
      .assign "limit" (.int 5)]⟩]
  entry := some "main"
  limit := 3
  scopes := .initial

/-- The bindings that a run of `doubling` leaves. -/
def doubled : Bindings := ⟨[("limit", ⟨.int, true, .int 5⟩)]⟩

/-- The console after `doubling` was run on no input. -/
def doubledConsole : Console := ⟨[], [], ⟨"4 \n".toUTF8.data, none, false⟩⟩

theorem run_doubling : doubling.run 9 (.ofInput [] none false) =
    some (.ok (), { doubling with scopes := ⟨#[⟨none, doubled⟩]⟩ }, doubledConsole) := by
  cbv

theorem doubling_run_refines_lexical :
    doubling.run 9 (.ofInput [] none false) =
      some (.ok (), { doubling with scopes := ⟨#[⟨none, doubled⟩]⟩ }, doubledConsole) ∧
    Lexical.run doubling 12 (doubling.scopes.env Scopes.root) (.ofInput [] none false) =
      some (.ok (), [doubled], doubledConsole) ∧
    Scopes.env ⟨#[⟨none, doubled⟩]⟩ Scopes.root = [doubled] := by
  have hlexical : Lexical.run doubling 12 (doubling.scopes.env Scopes.root)
      (.ofInput [] none false) = some (.ok (), [doubled], doubledConsole) := by cbv
  have halike := (run_refines_lexical doubling _).2 9 12 _ _ _ _ _ _ run_doubling hlexical
  exact ⟨run_doubling, hlexical, halike.2.1⟩

end Program

end MethodLang
