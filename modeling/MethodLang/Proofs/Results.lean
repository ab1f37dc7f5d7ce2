import MethodLang.Proofs.Alike

/-!
# How actions end

When a sequence of actions ends in a result or in an error, and what the actions on a machine
answer when they end. Actions that act alike end in the same results.
-/

namespace MethodLang

variable {σ τ α β : Type} {s s' : σ} {a : α} {b : β} {cause : EvalError}

theorem Outcome.mapState_eq_done_iff {f : σ → τ} {x : Outcome σ α} {t : τ} :
    x.mapState f = .done a t ↔ ∃ s, x = .done a s ∧ f s = t := by
  cases x with
  | done a' s =>
    constructor
    · intro h
      cases h
      exact ⟨s, rfl, rfl⟩
    · rintro ⟨s, h, rfl⟩
      cases h
      rfl
  | failed | unfinished => simp [mapState]

theorem Outcome.mapState_eq_failed_iff {f : σ → τ} {x : Outcome σ α} {t : τ} :
    x.mapState f = .failed cause t ↔ ∃ s, x = .failed cause s ∧ f s = t := by
  cases x with
  | failed e s =>
    constructor
    · intro h
      cases h
      exact ⟨s, rfl, rfl⟩
    · rintro ⟨s, h, rfl⟩
      cases h
      rfl
  | done | unfinished => simp [mapState]

theorem Outcome.Leaves.of_done {P : σ → Prop} {x : Outcome σ α} (h : x.Leaves P)
    (hx : x = .done a s) : P s := by
  rw [hx] at h
  exact h

namespace Outcome.Alike

variable {R : σ → τ → Prop} {x : Outcome σ α} {y : Outcome τ α}

theorem done_right (h : x.Alike R y) (hx : x = .done a s) : ∃ t, y = .done a t ∧ R s t := by
  cases h with
  | done h =>
    cases hx
    exact ⟨_, rfl, h⟩
  | failed | unfinished => cases hx

theorem done_left {t : τ} (h : x.Alike R y) (hy : y = .done a t) : ∃ s, x = .done a s ∧ R s t := by
  cases h with
  | done h =>
    cases hy
    exact ⟨_, rfl, h⟩
  | failed | unfinished => cases hy

end Outcome.Alike

namespace Action

variable {x : Action σ α} {f : α → Action σ β}

theorem bind_of_done (h : x s = .done a s') : (x >>= f) s = f a s' := by
  simp only [Bind.bind, Action.bind, h]

theorem bind_of_failed (h : x s = .failed cause s') : (x >>= f) s = .failed cause s' := by
  simp only [Bind.bind, Action.bind, h]

theorem bind_of_unfinished (h : x s = .unfinished) : (x >>= f) s = .unfinished := by
  simp only [Bind.bind, Action.bind, h]

/-- A sequence has a result if both parts have one. -/
theorem bind_eq_done_iff :
    (x >>= f) s = .done b s' ↔ ∃ a t, x s = .done a t ∧ f a t = .done b s' := by
  simp only [Bind.bind, Action.bind]
  cases x s with
  | done a t =>
    constructor
    · exact fun h => ⟨a, t, rfl, h⟩
    · rintro ⟨_, _, hx, h⟩
      cases hx
      exact h
  | failed | unfinished => simp

/-- A sequence fails if a part does. -/
theorem bind_eq_failed_iff :
    (x >>= f) s = .failed cause s' ↔
      x s = .failed cause s' ∨ ∃ a t, x s = .done a t ∧ f a t = .failed cause s' := by
  simp only [Bind.bind, Action.bind]
  cases x s with
  | done a t =>
    constructor
    · exact fun h => .inr ⟨a, t, rfl, h⟩
    · rintro (hx | ⟨_, _, hx, h⟩)
      · cases hx
      · cases hx
        exact h
  | failed | unfinished => simp

theorem pure_eq_done_iff {a' : α} :
    (Pure.pure a : Action σ α) s = .done a' s' ↔ a = a' ∧ s = s' := by
  simp [Pure.pure, Action.pure]

theorem ofExcept_eq_done_iff {r : Except EvalError α} :
    (ofExcept r : Action σ α) s = .done a s' ↔ r = .ok a ∧ s = s' := by
  cases r with
  | ok a' => exact pure_eq_done_iff.trans (by simp)
  | error e => simp [ofExcept, fail]

theorem ofExcept_eq_failed_iff {r : Except EvalError α} :
    (ofExcept r : Action σ α) s = .failed cause s' ↔ r = .error cause ∧ s = s' := by
  cases r with
  | ok a => simp [ofExcept, Pure.pure, Action.pure]
  | error e => simp [ofExcept, fail]

/-- A result leaves a related state. -/
theorem Keeps.of_done {R : σ → σ → Prop} (h : x.Keeps R) (hx : x s = .done a s') : R s s' :=
  (h s).of_done hx

/-! ### Actions on a machine -/

variable {m m' : Machine}

theorem query_eq_done_iff {f : Scopes → Except EvalError α} :
    query f m = .done a m' ↔ f m.scopes = .ok a ∧ m = m' := by
  simp only [query]
  cases f m.scopes <;> simp

theorem query_eq_failed_iff {f : Scopes → Except EvalError α} :
    query f m = .failed cause m' ↔ f m.scopes = .error cause ∧ m = m' := by
  simp only [query]
  cases f m.scopes <;> simp

theorem update_eq_done_iff {u : Scopes.Update} {r : Unit} :
    update u m = .done r m' ↔
      ∃ scopes, u.result m.scopes = .ok scopes ∧ { m with scopes } = m' := by
  simp only [update, Scopes.Update.result]
  rcases u m.scopes with ⟨_ | _, _⟩ <;> simp

/-- The answer of the console is the result. -/
theorem onConsole_of_ok {f : Console → Except ConsoleError α × Console}
    (h : (f m.console).1 = .ok a) :
    onConsole f m = .done a { m with console := (f m.console).2 } := by
  simp only [onConsole]
  generalize f m.console = answer at h ⊢
  obtain ⟨result, console⟩ := answer
  cases h
  rfl

theorem onConsole_of_error {f : Console → Except ConsoleError α × Console} {e : ConsoleError}
    (h : (f m.console).1 = .error e) :
    onConsole f m = .failed (.console e) { m with console := (f m.console).2 } := by
  simp only [onConsole]
  generalize f m.console = answer at h ⊢
  obtain ⟨result, console⟩ := answer
  cases h
  rfl

theorem leaves_onConsole {P : Machine → Prop} {f : Console → Except ConsoleError α × Console}
    (h : P { m with console := (f m.console).2 }) : (onConsole f m).Leaves P := by
  cases hresult : (f m.console).1 with
  | ok a =>
    rw [onConsole_of_ok hresult]
    exact h
  | error e =>
    rw [onConsole_of_error hresult]
    exact h

end Action

end MethodLang
