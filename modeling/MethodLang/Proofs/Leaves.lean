import Mathlib.Order.Defs.Unbundled
import MethodLang.Program
import MethodLang.Scopes.Lemmas

/-!
# What actions leave

An outcome leaves a property if the state at its end has it, after an error too. An action keeps a
relation if whatever state it leaves is related to the state from which it started.

Sequences and lists of statements keep a relation with their parts, if it is a preorder.
-/

namespace MethodLang

variable {σ τ α β : Type}

/-- The state at the end, of a result or of an error, has a property. -/
def Outcome.Leaves (P : σ → Prop) : Outcome σ α → Prop
  | .done _ s | .failed _ s => P s
  | .unfinished => True

namespace Outcome

variable {P Q : σ → Prop}

theorem leaves_of_forall (h : ∀ s, P s) (x : Outcome σ α) : x.Leaves P := by
  cases x with
  | done _ s | failed _ s => exact h s
  | unfinished => trivial

theorem Leaves.mono {x : Outcome σ α} (h : x.Leaves P) (hPQ : ∀ s, P s → Q s) : x.Leaves Q := by
  cases x with
  | done _ s | failed _ s => exact hPQ s h
  | unfinished => trivial

@[simp] theorem leaves_mapState {f : σ → τ} {P : τ → Prop} {x : Outcome σ α} :
    (x.mapState f).Leaves P ↔ x.Leaves fun s => P (f s) := by
  cases x <;> rfl

end Outcome

/-- A sequence leaves what its first part leaves, if the second part preserves it. -/
theorem Action.leaves_bind {P : τ → Prop} {x : Action τ α} {f : α → Action τ β} {s : τ}
    (h : (x s).Leaves P) (hf : ∀ a t, P t → (f a t).Leaves P) : ((x >>= f) s).Leaves P := by
  simp only [Bind.bind, Action.bind]
  cases hs : x s with
  | done a t =>
    rw [hs] at h
    exact hf a t h
  | failed e t =>
    rw [hs] at h
    exact h
  | unfinished => trivial

namespace Action

variable {u : Scopes.Update} {m : Machine} {scopes : Scopes} {e : EvalError}

theorem update_of_ok (h : u.result m.scopes = .ok scopes) :
    update u m = .done () { m with scopes } := by
  rw [update, Scopes.Update.eq_of_result_eq_ok h]

theorem update_of_error (hu : u.Atomic) (h : u.result m.scopes = .error e) :
    update u m = .failed e m := by
  rw [update, hu.eq_of_result_eq_error h]

theorem update_of_ite {c : Prop} [Decidable c] (hu : u.Atomic)
    (h : u.result m.scopes = if c then .error e else .ok scopes) :
    update u m = if c then .failed e m else .done () { m with scopes } := by
  rw [update, hu.eq_of_result_eq_ite h]
  by_cases hc : c
  · rw [if_pos hc, if_pos hc]
  · rw [if_neg hc, if_neg hc]

/-- An update leaves a property if it does so whenever it succeeds. -/
theorem leaves_update {P : Machine → Prop} (hu : u.Atomic) (hm : P m)
    (h : ∀ scopes, u.result m.scopes = .ok scopes → P { m with scopes }) :
    (update u m).Leaves P := by
  cases hresult : u.result m.scopes with
  | ok scopes =>
    rw [update_of_ok hresult]
    exact h scopes hresult
  | error e =>
    rw [update_of_error hu hresult]
    exact hm

end Action

/-- Whatever an action leaves is related to the state from which it started. -/
def Action.Keeps (R : σ → σ → Prop) (x : Action σ α) : Prop := ∀ s, (x s).Leaves (R s)

namespace Action.Keeps

variable {R R' : σ → σ → Prop} {x : Action σ α}

theorem mono (h : x.Keeps R) (hR : ∀ s t, R s t → R' s t) : x.Keeps R' :=
  fun s => (h s).mono (hR s)

theorem unfinished : Keeps R (.unfinished : Action σ α) := fun _ => trivial

variable [IsPreorder σ R]

protected theorem pure (a : α) : Keeps R (Pure.pure a : Action σ α) := fun s => refl_of R s

theorem fail (e : EvalError) : Keeps R (.fail e : Action σ α) := fun s => refl_of R s

theorem ofExcept (r : Except EvalError α) : Keeps R (.ofExcept r) := by
  cases r with
  | ok a => exact .pure a
  | error e => exact fail e

protected theorem bind {f : α → Action σ β} (h : x.Keeps R) (hf : ∀ a, (f a).Keeps R) :
    (x >>= f).Keeps R := by
  intro s
  have hx := h s
  simp only [Bind.bind, Action.bind]
  cases hs : x s with
  | done a s' =>
    rw [hs] at hx
    exact (hf a s').mono fun s'' hs'' => trans_of R hx hs''
  | failed e s' =>
    rw [hs] at hx
    exact hx
  | unfinished => trivial

end Action.Keeps

/-! ### Programs -/

namespace Program

variable {p p' : Program} {n : Nat} {console console' : Console} {P : Machine → Prop}

/-- What an action leaves is what the program and the console hold after it. -/
theorem leaves_of_after {x : Outcome Machine α} {result : Except EvalError α} (hx : x.Leaves P)
    (h : p.after x = some (result, p', console')) :
    ∃ m, P m ∧ p' = { p with scopes := m.scopes } ∧ console' = m.console := by
  cases x with
  | done _ m | failed _ m =>
    simp only [after, Option.some.injEq, Prod.mk.injEq] at h
    obtain ⟨-, rfl, rfl⟩ := h
    exact ⟨m, hx, rfl, rfl⟩
  | unfinished => cases h

theorem leaves_of_run {entry : String} {result : Except EvalError Unit}
    (hentry : p.entry = some entry)
    (hleaves : (p.action n entry ⟨.initial, #[], console⟩).Leaves P)
    (h : p.run n console = some (result, p', console')) :
    ∃ m, P m ∧ p' = { p with scopes := m.scopes } ∧ console' = m.console := by
  simp only [run, hentry, Option.map_eq_some_iff] at h
  obtain ⟨⟨result', p'', console''⟩, hafter, heq⟩ := h
  have hm := leaves_of_after hleaves hafter
  -- flushing the output at the end changes neither
  cases result' <;> cases heq <;> exact hm

end Program

end MethodLang
