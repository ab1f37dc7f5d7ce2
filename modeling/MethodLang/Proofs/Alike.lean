import MethodLang.Proofs.Leaves

/-!
# Actions that act alike

Two actions, perhaps on different kinds of states, act alike under a relation between the states
if from related states they end alike: both with the same result, both with the same error, or
neither, and in related states. `Alike.bind` carries this through sequencing.
-/

namespace MethodLang

variable {σ σ' τ τ' α β : Type} {R : σ → τ → Prop}

/-- The same end, in related states. -/
inductive Outcome.Alike (R : σ → τ → Prop) : Outcome σ α → Outcome τ α → Prop
  | done {a : α} {s : σ} {t : τ} (h : R s t) : Alike R (.done a s) (.done a t)
  | failed {e : EvalError} {s : σ} {t : τ} (h : R s t) : Alike R (.failed e s) (.failed e t)
  | unfinished : Alike R .unfinished .unfinished

theorem Outcome.Alike.map {x : Outcome σ α} {y : Outcome τ α} {f : σ → σ'} {g : τ → τ'}
    {R' : σ' → τ' → Prop} (h : x.Alike R y) (hfg : ∀ s t, R s t → R' (f s) (g t)) :
    (x.mapState f).Alike R' (y.mapState g) := by
  cases h with
  | done h => exact .done (hfg _ _ h)
  | failed h => exact .failed (hfg _ _ h)
  | unfinished => exact .unfinished

theorem Outcome.Alike.map_left {x : Outcome σ α} {y : Outcome τ α} {f : σ → σ'}
    {R' : σ' → τ → Prop} (h : x.Alike R y) (hf : ∀ s t, R s t → R' (f s) t) :
    (x.mapState f).Alike R' y := by
  rw [← Outcome.mapState_id y]
  exact h.map hf

theorem Outcome.Alike.map_right {x : Outcome σ α} {y : Outcome τ α} {g : τ → τ'}
    {R' : σ → τ' → Prop} (h : x.Alike R y) (hg : ∀ s t, R s t → R' s (g t)) :
    x.Alike R' (y.mapState g) := by
  rw [← Outcome.mapState_id x]
  exact h.map hg

theorem Outcome.Alike.mapState_eq_mapState {υ : Type} {x : Outcome σ α} {y : Outcome τ α}
    {f : σ → υ} {g : τ → υ} (h : x.Alike R y) (hfg : ∀ s t, R s t → f s = g t) :
    x.mapState f = y.mapState g := by
  cases h with
  | done h => rw [Outcome.mapState, Outcome.mapState, hfg _ _ h]
  | failed h => rw [Outcome.mapState, Outcome.mapState, hfg _ _ h]
  | unfinished => rfl

/-- Actions that end alike end in the same way where the relation is a function. -/
theorem Outcome.Alike.mapState_eq {x : Outcome σ α} {y : Outcome τ α} {f : σ → τ} (h : x.Alike R y)
    (hf : ∀ s t, R s t → f s = t) : x.mapState f = y :=
  (h.mapState_eq_mapState hf).trans y.mapState_id

/-- Two outcomes that are alike with outcomes that differ in their states differ in their states. -/
theorem Outcome.Alike.eq_mapState {x : Outcome σ α} {y : Outcome τ α} {x' : Outcome σ' α}
    {R' : σ' → τ' → Prop} {f : σ → σ'} {g : τ → τ'} (h : x.Alike R y)
    (h' : x'.Alike R' (y.mapState g)) (hf : ∀ s s' t, R s t → R' s' (g t) → s' = f s) :
    x' = x.mapState f := by
  cases h with
  | done h =>
    cases h' with
    | done h' => rw [hf _ _ _ h h', Outcome.mapState]
  | failed h =>
    cases h' with
    | failed h' => rw [hf _ _ _ h h', Outcome.mapState]
  | unfinished =>
    cases h' with
    | unfinished => rfl

/-- Two outcomes that are alike with outcomes that are alike are equal, where the relations leave
only one state. -/
theorem Outcome.Alike.eq_of_alike {x x' : Outcome σ α} {y : Outcome τ α} {y' : Outcome τ' α}
    {R' : σ → τ' → Prop} {S : τ → τ' → Prop} (h : x.Alike R y) (h' : x'.Alike R' y')
    (hy : y.Alike S y') (heq : ∀ s s' t t', R s t → R' s' t' → S t t' → s = s') : x = x' := by
  cases hy with
  | done hS =>
    cases h with
    | done h =>
      cases h' with
      | done h' => rw [heq _ _ _ _ h h' hS]
  | failed hS =>
    cases h with
    | failed h =>
      cases h' with
      | failed h' => rw [heq _ _ _ _ h h' hS]
  | unfinished =>
    cases h with
    | unfinished =>
      cases h' with
      | unfinished => rfl

/-- What is left is related to some state of the other kind. -/
theorem Outcome.Alike.leaves_related {x : Outcome σ α} {y : Outcome τ α} (h : x.Alike R y) :
    x.Leaves fun s => ∃ t, R s t := by
  cases h with
  | done h | failed h => exact ⟨_, h⟩
  | unfinished => trivial

theorem Outcome.Alike.leaves {P : σ → Prop} {Q : τ → Prop} {x : Outcome σ α} {y : Outcome τ α}
    (h : x.Alike R y) (hy : y.Leaves Q) (hf : ∀ s t, R s t → Q t → P s) : x.Leaves P := by
  cases h with
  | done h | failed h => exact hf _ _ h hy
  | unfinished => trivial

/-- From related states, the same end in related states. -/
def Action.Alike (R : σ → τ → Prop) (x : Action σ α) (y : Action τ α) : Prop :=
  ∀ s t, R s t → (x s).Alike R (y t)

namespace Action.Alike

protected theorem pure (a : α) : Action.Alike R (Pure.pure a) (Pure.pure a) := fun _ _ h => .done h

theorem fail (e : EvalError) : Action.Alike (α := α) R (.fail e) (.fail e) := fun _ _ h => .failed h

theorem unfinished : Action.Alike (α := α) R .unfinished .unfinished := fun _ _ _ => .unfinished

theorem ofExcept (x : Except EvalError α) : Action.Alike R (.ofExcept x) (.ofExcept x) := by
  cases x with
  | ok a => exact .pure a
  | error e => exact fail e

protected theorem bind {x : Action σ α} {y : Action τ α} {f : α → Action σ β} {g : α → Action τ β}
    (h : Action.Alike R x y) (hf : ∀ a, Action.Alike R (f a) (g a)) :
    Action.Alike R (x >>= f) (y >>= g) := by
  intro s t hst
  simp only [Bind.bind, Action.bind]
  have hxy := h s t hst
  generalize x s = ends at hxy ⊢
  generalize y t = ends' at hxy ⊢
  cases hxy with
  | done h' => exact hf _ _ _ h'
  | failed h' => exact .failed h'
  | unfinished => exact .unfinished

/-- Lists of statements act alike if the statements do. -/
theorem execAll {f : Stmt → Action σ Signal} {g : Stmt → Action τ Signal} (body : List Stmt)
    (h : ∀ st ∈ body, Action.Alike R (f st) (g st)) :
    Action.Alike R (execAll f body) (MethodLang.execAll g body) := by
  induction body with
  | nil => exact .pure _
  | cons st rest ih =>
    rw [List.forall_mem_cons] at h
    refine h.1.bind fun signal => ?_
    cases signal with
    | normal => exact ih h.2
    | brk | ret => exact .pure _

theorem execOption {f : Stmt → Action σ Signal} {g : Stmt → Action τ Signal} (no : Option Stmt)
    (h : ∀ st ∈ no, Action.Alike R (f st) (g st)) :
    Action.Alike R (execOption f no) (MethodLang.execOption g no) := by
  cases no with
  | none => exact .pure _
  | some st => exact h st rfl

end Action.Alike

end MethodLang
