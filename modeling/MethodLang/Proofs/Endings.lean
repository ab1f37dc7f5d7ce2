import MethodLang.Eval.Steps
import MethodLang.Proofs.Leaves

/-!
# How runs end

What is left of a run when it has ended: its result, the scopes and the console. A run ends in one
way only, whatever number of steps it is given.
-/

namespace MethodLang

/-- How a run ends: its result, the scopes that it leaves, and the console. -/
structure Ending where
  result : Except EvalError Unit
  scopes : Scopes
  console : Console

/-- How a run ends whose fields and entry method have an outcome. -/
def Outcome.ending? {α : Type} : Outcome Machine α → Option Ending
  | .done _ m => some ⟨m.console.flush.mapError EvalError.console, m.scopes, m.console⟩
  | .failed e m => some ⟨.error e, m.scopes, m.console⟩
  | .unfinished => none

/-- What an outcome leaves is what the run leaves. -/
theorem Outcome.Leaves.of_ending? {α : Type} {x : Outcome Machine α} {P : Machine → Prop}
    {ending : Ending} (hx : x.Leaves P) (h : x.ending? = some ending) :
    ∃ m, P m ∧ ending.scopes = m.scopes ∧ ending.console = m.console := by
  cases x with
  | done _ m | failed _ m =>
    cases h
    exact ⟨m, hx, rfl, rfl⟩
  | unfinished => cases h

namespace Program

variable {p : Program} {console : Console} {ending ending' : Ending}

/-- How a run ends, if the steps suffice. -/
def ending? (p : Program) (n : Nat) (console : Console) : Option Ending :=
  (p.run n console).map fun (result, p', console') => ⟨result, p'.scopes, console'⟩

/-- A run ends, and ends so. -/
def EndsIn (p : Program) (console : Console) (ending : Ending) : Prop :=
  ∃ n, p.ending? n console = some ending

/-- A run ends in one way only. -/
theorem EndsIn.unique (h : p.EndsIn console ending) (h' : p.EndsIn console ending') :
    ending = ending' := by
  obtain ⟨n, hn⟩ := h
  obtain ⟨k, hk⟩ := h'
  have hends : ∀ j, j = n ∨ j = k → p.run j console ≠ none := by
    rintro j (rfl | rfl) hnone
    · simp [ending?, hnone] at hn
    · simp [ending?, hnone] at hk
  -- with as many steps as either had, both go on alike
  have hrun : p.run n console = p.run k console :=
    (p.run_eq_of_le (Nat.le_max_left n k) console (hends n (.inl rfl))).symm.trans
      (p.run_eq_of_le (Nat.le_max_right n k) console (hends k (.inr rfl)))
  rw [ending?, hrun, ← ending?, hk] at hn
  exact (Option.some.inj hn).symm

theorem ending?_of_no_entry (hentry : p.entry = none) (n : Nat) (console : Console) :
    p.ending? n console = some ⟨.error .missingEntryPoint, p.scopes, console⟩ := by
  simp only [ending?, run, hentry, Option.map_some]

theorem ending?_of_entry {entry : String} (hentry : p.entry = some entry) (n : Nat)
    (console : Console) :
    p.ending? n console = (p.action n entry ⟨.initial, #[], console⟩).ending? := by
  simp only [ending?, run, hentry]
  cases p.action n entry ⟨.initial, #[], console⟩ <;> rfl

end Program

end MethodLang
