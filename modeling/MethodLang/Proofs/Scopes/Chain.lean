import MethodLang.Scopes.Lemmas
import MethodLang.Proofs.Lexical.Environment

/-!
# The environment of a scope

The chain of a live scope is the scope itself and the chain of its parent; the bindings along it
are the environment of the scope.

* `Live.induction` goes from the parent of a scope to the scope;
* `chain_of_live` and `env_of_live` say how chains and environments go on with the parent;
* `resolve_slot` reads a look-up off the environment, and `find?_of_resolve` says that the slot that
  is found is bound in the scope where it is found.
-/

namespace MethodLang.Scopes

variable {s t : Scopes} {scope id p : ScopeId} {name : String}

/-! ### Live scopes and their parents -/

/-- A scope is live if it is in the arena. -/
def Live (s : Scopes) (scope : ScopeId) : Prop := scope.index < s.size

instance (s : Scopes) (scope : ScopeId) : Decidable (s.Live scope) :=
  inferInstanceAs (Decidable (scope.index < s.size))

/-- The parent that look-ups follow. -/
def parent? (s : Scopes) (scope : ScopeId) : Option ScopeId :=
  (s.frame? scope).bind fun frame => frame.parent.filter fun p => p.index < scope.index

/-- The parent link of a live scope. -/
def link? (s : Scopes) (scope : ScopeId) : Option (Option ScopeId) :=
  (s.frame? scope).map Frame.parent

/-- The bindings of a scope. -/
def slotsAt (s : Scopes) (scope : ScopeId) : Bindings := (s.frame? scope).elim .empty Frame.slots

theorem live_iff_frame? : s.Live scope ↔ ∃ frame, s.frame? scope = some frame := by
  rw [← Option.ne_none_iff_exists', Ne, frame?_eq_none_iff, Nat.not_le, Live]

theorem live_iff_link? : s.Live scope ↔ s.link? scope ≠ none := by
  rw [live_iff_frame?, ← Option.ne_none_iff_exists', link?, Ne, Ne, Option.map_eq_none_iff]

theorem live_congr (h : t.link? scope = s.link? scope) : t.Live scope ↔ s.Live scope := by
  rw [live_iff_link?, live_iff_link?, h]

theorem live_initial_root : initial.Live root := Nat.zero_lt_one

theorem Live.size_pos (h : s.Live scope) : 0 < s.size := Nat.zero_lt_of_lt h

theorem live_push_next (s : Scopes) (parent : Option ScopeId) : (s.push parent).Live s.next := by
  simp [Live, next]

theorem Live.ne_next (h : s.Live scope) : scope ≠ s.next := by
  rintro rfl
  exact Nat.lt_irrefl _ h

theorem parent?_lt (h : s.parent? scope = some p) : p.index < scope.index := by
  simp only [parent?, Option.bind_eq_some_iff, Option.filter_eq_some_iff] at h
  obtain ⟨frame, -, -, hlt⟩ := h
  simpa using hlt

theorem Live.parent? (h : s.Live scope) (hp : s.parent? scope = some p) : s.Live p :=
  Nat.lt_trans (parent?_lt hp) h

theorem parent?_eq_link? (s : Scopes) (scope : ScopeId) :
    s.parent? scope = (s.link? scope).bind fun parent => parent.filter fun p =>
      p.index < scope.index := by
  simp only [Scopes.parent?, link?]
  cases s.frame? scope <;> rfl

/-- To show something of every live scope, show it of a scope whose parent has it. -/
theorem Live.induction {motive : ∀ scope, s.Live scope → Prop}
    (step : ∀ scope (h : s.Live scope),
      (∀ p (hp : s.parent? scope = some p), motive p (h.parent? hp)) → motive scope h)
    (scope : ScopeId) (h : s.Live scope) : motive scope h := by
  obtain ⟨i⟩ := scope
  induction i using Nat.strongRecOn with
  | ind i ih =>
    refine step ⟨i⟩ h fun p hp => ?_
    exact ih p.index (parent?_lt hp) (h.parent? hp)

/-! ### Chains -/

/-- The chain of a scope that may be missing. -/
def above (s : Scopes) : Option ScopeId → List ScopeId
  | none => []
  | some scope => s.chain scope

@[simp] theorem above_none (s : Scopes) : s.above none = [] := rfl

@[simp] theorem above_some (s : Scopes) (scope : ScopeId) : s.above (some scope) = s.chain scope :=
  rfl

theorem chain_of_live (h : s.Live scope) : s.chain scope = scope :: s.above (s.parent? scope) := by
  obtain ⟨frame, hf⟩ := live_iff_frame?.1 h
  rw [chain, hf]
  cases hp : frame.parent with
  | none => simp [parent?, hf, hp]
  | some q =>
    by_cases hq : q.index < scope.index <;> simp [parent?, hf, hp, hq, Option.filter_some]

theorem chain_of_not_live (h : ¬s.Live scope) : s.chain scope = [] := by
  rw [chain, frame?_eq_none_iff.2 (Nat.le_of_not_lt h)]

theorem mem_chain_self (h : s.Live scope) : scope ∈ s.chain scope := by
  simp [chain_of_live h]

theorem index_le_of_mem_chain (h : id ∈ s.chain scope) : id.index ≤ scope.index := by
  by_cases hl : s.Live scope
  · induction scope, hl using Live.induction with
    | step scope hl ih =>
      rw [chain_of_live hl] at h
      rcases List.mem_cons.1 h with rfl | h
      · exact Nat.le_refl _
      · cases hp : s.parent? scope with
        | none => simp [hp] at h
        | some p =>
          rw [hp] at h
          exact Nat.le_trans (ih p hp h) (Nat.le_of_lt (parent?_lt hp))
  · simp [chain_of_not_live hl] at h

theorem live_of_mem_chain (h : id ∈ s.chain scope) : s.Live id := by
  by_cases hl : s.Live scope
  · exact Nat.lt_of_le_of_lt (index_le_of_mem_chain h) hl
  · simp [chain_of_not_live hl] at h

theorem index_lt_of_mem_above (h : id ∈ s.above (s.parent? scope)) : id.index < scope.index := by
  cases hp : s.parent? scope with
  | none => simp [hp] at h
  | some p =>
    rw [hp] at h
    exact Nat.lt_of_le_of_lt (index_le_of_mem_chain h) (parent?_lt hp)

theorem not_mem_above_parent? (s : Scopes) (scope : ScopeId) : scope ∉ s.above (s.parent? scope) :=
  fun h => Nat.lt_irrefl _ (index_lt_of_mem_above h)

/-- Chains depend on the parent links alone. -/
theorem chain_congr (h : ∀ id, t.link? id = s.link? id) (scope : ScopeId) :
    t.chain scope = s.chain scope := by
  by_cases hl : s.Live scope
  · induction scope, hl using Live.induction with
    | step scope hl ih =>
      have hparent : t.parent? scope = s.parent? scope := by
        rw [parent?_eq_link?, parent?_eq_link?, h]
      rw [chain_of_live hl, chain_of_live ((live_congr (h scope)).2 hl), hparent]
      cases hp : s.parent? scope with
      | none => rfl
      | some p => simp [ih p hp]
  · rw [chain_of_not_live hl, chain_of_not_live (mt (live_congr (h scope)).1 hl)]

theorem above_congr (h : ∀ id, t.link? id = s.link? id) (parent : Option ScopeId) :
    t.above parent = s.above parent := by
  cases parent with
  | none => rfl
  | some scope => exact chain_congr h scope

/-! ### Environments -/

/-- What is visible from a scope that may be missing. -/
def envAbove (s : Scopes) (parent : Option ScopeId) : Env := (s.above parent).map s.slotsAt

/-- What is visible from a scope. -/
def env (s : Scopes) (scope : ScopeId) : Env := (s.chain scope).map s.slotsAt

@[simp] theorem envAbove_some (s : Scopes) (scope : ScopeId) :
    s.envAbove (some scope) = s.env scope := rfl

theorem env_of_live (h : s.Live scope) :
    s.env scope = s.slotsAt scope :: s.envAbove (s.parent? scope) := by
  rw [env, chain_of_live h, List.map_cons, envAbove]

theorem env_initial : initial.env root = [.empty] := by
  rw [env_of_live live_initial_root]
  rfl

theorem slotsAt_congr (h : t.frame? scope = s.frame? scope) :
    t.slotsAt scope = s.slotsAt scope := by
  rw [slotsAt, h, slotsAt]

/-- A frame is a parent link and bindings. -/
theorem frame?_congr (hlink : t.link? scope = s.link? scope)
    (hslots : t.slotsAt scope = s.slotsAt scope) : t.frame? scope = s.frame? scope := by
  simp only [link?, slotsAt] at hlink hslots
  cases ht : t.frame? scope with
  | none => cases hs : s.frame? scope <;> simp_all
  | some frame =>
    cases hs : s.frame? scope with
    | none => simp [ht, hs] at hlink
    | some frame' =>
      obtain ⟨parent, slots⟩ := frame
      obtain ⟨parent', slots'⟩ := frame'
      simp_all

/-! ### Look-ups -/

theorem own?_eq (s : Scopes) (name : String) (scope : ScopeId) :
    s.own? name scope = ((s.slotsAt scope).find? name).map (scope, ·) := by
  rw [own?, slotsAt]
  cases s.frame? scope <;> simp

/-- A look-up gives the slot that the environment has under the name. -/
theorem resolve_slot (s : Scopes) (scope : ScopeId) (name : String) :
    (s.resolve scope name).map Prod.snd = (s.env scope).slot? name := by
  rw [resolve_eq_findSome?, env, Env.slot?, List.findSome?_map]
  induction s.chain scope with
  | nil => rfl
  | cons id rest ih =>
    rw [List.findSome?_cons, List.findSome?_cons, own?_eq]
    cases h : (s.slotsAt id).find? name <;> simp [h, ih]

theorem resolve_of_live (h : s.Live scope) (name : String) :
    s.resolve scope name =
      match (s.slotsAt scope).find? name with
      | some slot => some (scope, slot)
      | none => (s.parent? scope).bind (s.resolve · name) := by
  rw [resolve_eq_findSome?, chain_of_live h, List.findSome?_cons, own?_eq]
  cases hs : (s.slotsAt scope).find? name with
  | some slot => rfl
  | none =>
    cases hp : s.parent? scope with
    | none => rfl
    | some p => simp [resolve_eq_findSome?]

theorem mem_chain_of_resolve {holder : ScopeId} {slot : Slot}
    (h : s.resolve scope name = some (holder, slot)) : holder ∈ s.chain scope := by
  rw [resolve_eq_findSome?] at h
  obtain ⟨id, hid, hown⟩ := List.exists_of_findSome?_eq_some h
  rw [own?_eq, Option.map_eq_some_iff] at hown
  obtain ⟨found, -, hfound⟩ := hown
  rwa [← (Prod.mk.inj hfound).1]

/-- What a look-up finds stands where it finds it. -/
theorem find?_of_resolve {holder : ScopeId} {slot : Slot}
    (h : s.resolve scope name = some (holder, slot)) :
    (s.slotsAt holder).find? name = some slot := by
  rw [resolve_eq_findSome?] at h
  obtain ⟨id, -, hown⟩ := List.exists_of_findSome?_eq_some h
  rw [own?_eq, Option.map_eq_some_iff] at hown
  obtain ⟨found, hfind, hfound⟩ := hown
  cases hfound
  exact hfind

/-- What is not found is not bound in the scope itself. -/
theorem find?_of_resolve_eq_none (h : s.resolve scope name = none) :
    (s.slotsAt scope).find? name = none := by
  by_cases hl : s.Live scope
  · rw [resolve_of_live hl] at h
    cases hf : (s.slotsAt scope).find? name with
    | none => rfl
    | some slot => simp [hf] at h
  · rw [slotsAt, frame?_eq_none_iff.2 (Nat.le_of_not_lt hl)]
    rfl

end MethodLang.Scopes
