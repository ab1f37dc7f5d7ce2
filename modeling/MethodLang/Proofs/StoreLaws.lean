import Mathlib
import MethodLang.Proofs.Scopes.Operations
import MethodLang.Proofs.StackDiscipline

/-!
# Store laws

The arena is a store that is read and written through chains: from which scope a change is seen
depends on whose chain meets the changed scope first. Any name may be bound by several scopes, even
on one chain, because a scope may declare what scopes under it have declared.

* `Descending.resolve_put_of_visits` and `resolve_put_of_not_visits` say which look-ups a binding
  changes: those that walk to the scope of the binding;
* `Assigned.of_assign` says what an assignment changes, `Declared.of_declare` what a declaration;
* `updates_obey_store_laws` puts them together with what failures leave, what declarations with a
  value do, and the order of operations on different names.
-/

namespace MethodLang.Scopes

variable {s t : Scopes} {scope id holder : ScopeId} {name other : String} {slot : Slot}

/-! ### Walks to a binding -/

/-- A walk that leaves its start goes to the parent. -/
theorem visits_iff :
    s.Visits name scope id ↔ id = scope ∨ (s.slotsAt scope).find? name = none ∧
      ∃ p, s.link? scope = some (some p) ∧ s.Visits name p id := by
  constructor
  · intro h
    induction h with
    | here => exact .inl rfl
    | up _ hnone hp ih =>
      rcases ih with rfl | ⟨hnone', q, hq, hv⟩
      · exact .inr ⟨hnone, _, hp, .here⟩
      · exact .inr ⟨hnone', q, hq, .up hv hnone hp⟩
  · rintro (rfl | ⟨hnone, p, hp, hv⟩)
    · exact .here
    · exact hv.of_parent hnone hp

/-- A look-up that walks to the scope of a binding finds it. -/
theorem Descending.resolve_put_of_visits (h : s.Descending) (hl : s.Live scope)
    (hv : s.Visits name scope holder) (slot : Slot) :
    (s.put holder name slot).resolve scope name = some (holder, slot) := by
  induction scope, hl using Live.induction with
  | step scope hl ih =>
    by_cases heq : scope = holder
    · subst heq
      exact resolve_put_self s hl name slot
    · rcases visits_iff.1 hv with rfl | ⟨hnone, p, hp, hv⟩
      · exact absurd rfl heq
      · -- the walk leaves this scope, so it is not the one that is bound in, and stays as it is
        have hparent := h.parent?_eq hp
        rw [resolve_of_live (live_put_iff.2 hl), slotsAt_put_of_ne heq, hnone, parent?_put, hparent]
        exact ih p hparent hv

/-- Other look-ups find what they found. -/
theorem resolve_put_of_not_visits (hl : s.Live scope) (hv : ¬s.Visits name scope holder)
    (slot : Slot) : (s.put holder name slot).resolve scope name = s.resolve scope name := by
  induction scope, hl using Live.induction with
  | step scope hl ih =>
    have hne : scope ≠ holder := by
      rintro rfl
      exact hv .here
    rw [resolve_of_live (live_put_iff.2 hl), resolve_of_live hl, slotsAt_put_of_ne hne, parent?_put]
    cases hf : (s.slotsAt scope).find? name with
    | some found => rfl
    | none =>
      cases hp : s.parent? scope with
      | none => rfl
      | some p => exact ih p hp fun hv' => hv (hv'.of_parent hf (link?_of_parent? hp))

theorem slot_congr {viewer : ScopeId} (h : t.resolve viewer name = s.resolve viewer name) :
    t.slot viewer name = s.slot viewer name := by
  rw [Scopes.slot, h, Scopes.slot]

theorem slot_of_resolve (h : s.resolve scope name = some (holder, slot)) :
    s.slot scope name = .ok slot := by
  rw [Scopes.slot, h]

/-! ### Assignments -/

/-- What an assignment from a scope changes: from all scopes from which the name means the same
scope, its slot is assigned the value and keeps its type; nothing else changes. -/
structure Assigned (s : Scopes) (scope : ScopeId) (name : String) (value : Value) (t : Scopes) :
    Prop where
  assigned : ∀ viewer, s.Live viewer → s.holder? viewer name = s.holder? scope name →
    ∃ old new, s.slot viewer name = .ok old ∧ t.slot viewer name = .ok new ∧ new.assigned = true ∧
      new.value = value ∧ new.ty = old.ty
  others : ∀ viewer other, s.Live viewer →
    ¬(other = name ∧ s.holder? viewer name = s.holder? scope name) →
    t.slot viewer other = s.slot viewer other

theorem Assigned.of_assign {value : Value} (h : s.Descending)
    (ht : s.assign scope name value = .ok t) : s.Assigned scope name value t := by
  obtain ⟨holder, slot, hr, -, rfl⟩ := assign_eq_ok_iff.1 ht
  have hbound : (s.slotsAt holder).find? name = some slot := find?_of_resolve hr
  have hholder : s.holder? scope name = some holder := holder?_eq_some_iff.2 ⟨slot, hr⟩
  constructor
  · intro viewer hl hsame
    obtain ⟨old, hold⟩ := holder?_eq_some_iff.1 (hsame.trans hholder)
    obtain rfl : old = slot := Option.some.inj ((find?_of_resolve hold).symm.trans hbound)
    have hnew := h.resolve_put_of_visits hl (visits_of_resolve hl hold)
      { old with assigned := true, value }
    exact ⟨old, _, slot_of_resolve hold, slot_of_resolve hnew, rfl, rfl, rfl⟩
  · intro viewer other hl hne
    apply slot_congr
    by_cases hname : other = name
    · subst hname
      apply resolve_put_of_not_visits hl
      -- a look-up that walks there stops there, as the name is bound
      intro hv
      have hfound := (h.resolve_eq_some_iff hl).2 ⟨hv, hbound⟩
      exact hne ⟨rfl, (holder?_eq_some_iff.2 ⟨slot, hfound⟩).trans hholder.symm⟩
    · exact resolve_put_of_ne hname s holder _ viewer

/-! ### Declarations -/

/-- What a declaration in a scope changes: from all scopes from which a look-up of the name walks
to that scope, the name was not visible, and now is, without a value; nothing else changes. -/
structure Declared (s : Scopes) (scope : ScopeId) (name : String) (ty : Ty) (t : Scopes) :
    Prop where
  declared : ∀ viewer, s.Live viewer → s.Visits name viewer scope →
    s.isVisible viewer name = false ∧ t.isVisible viewer name = true ∧
      ∃ new, t.slot viewer name = .ok new ∧ new.assigned = false ∧ new.value = .untyped ∧
        new.ty = ty
  others : ∀ viewer other, s.Live viewer → ¬(other = name ∧ s.Visits name viewer scope) →
    t.isVisible viewer other = s.isVisible viewer other ∧ t.slot viewer other = s.slot viewer other

theorem Declared.of_declare {ty : Ty} (h : s.Descending) (ht : s.declare scope name ty = .ok t) :
    s.Declared scope name ty t := by
  obtain ⟨hr, rfl⟩ := declare_eq_ok_iff.1 ht
  constructor
  · intro viewer hl hv
    have hold : s.resolve viewer name = none := (h.resolve_eq_of_visits hl hv).symm.trans hr
    have hnew := h.resolve_put_of_visits hl hv ⟨ty, false, .untyped⟩
    refine ⟨?_, ?_, _, slot_of_resolve hnew, rfl, rfl, rfl⟩
    · rw [isVisible, hold, Option.isSome_none]
    · rw [isVisible, hnew, Option.isSome_some]
  · intro viewer other hl hne
    have hsame : (s.put scope name ⟨ty, false, .untyped⟩).resolve viewer other =
        s.resolve viewer other := by
      by_cases hname : other = name
      · subst hname
        exact resolve_put_of_not_visits hl (fun hv => hne ⟨rfl, hv⟩) _
      · exact resolve_put_of_ne hname s scope _ viewer
    exact ⟨by rw [isVisible, hsame, isVisible], slot_congr hsame⟩

/-! ### Declarations with a value -/

/-- What has just been declared can be assigned a value of its type. -/
theorem assign_of_declare {value : Value} (hl : s.Live scope)
    (ht : s.declare scope name value.ty = .ok t) :
    ∃ u, t.assign scope name value = .ok u := by
  obtain ⟨-, rfl⟩ := declare_eq_ok_iff.1 ht
  exact ⟨_, assign_eq_ok_iff.2 ⟨_, _, resolve_put_self s hl name _, rfl, rfl⟩⟩

theorem perform_declareAndAssign_eq_error_iff {value : Value} {e : EvalError} (hl : s.Live scope) :
    ((Access.declareAndAssign value).perform scope name s).1 = .error e ↔
      s.isVisible scope name = true ∧ e = .redeclaration name := by
  rw [Access.perform_declareAndAssign hl]
  by_cases hvisible : s.isVisible scope name = true
  · simp [hvisible, eq_comm]
  · simp [hvisible]

/-! ### The laws -/

/-- In an arena whose parents are older than their children, whatever names its scopes share: an
access to a name that fails leaves the arena as it was. A declaration with a value fails exactly if
the name is visible, and not in its second step. An assignment changes one slot, as seen from all
scopes from which the name means that slot, and a declaration adds one, as seen from all scopes
from which a look-up walks there. Accesses to different names may change places, from whichever
scopes they are made. -/
theorem updates_obey_store_laws (h : s.Descending) (hl : s.Live scope) (name : String) :
    (∀ (access : Access) (e : EvalError) (t : Scopes),
      access.perform scope name s = (.error e, t) → t = s) ∧
    (∀ value : Value,
      (Access.declareAndAssign value).perform scope name s =
        (if s.isVisible scope name then (.error (.redeclaration name), s)
          else (.ok .updated, s.put scope name ⟨value.ty, true, value⟩)) ∧
      (∀ e, ((Access.declareAndAssign value).perform scope name s).1 = .error e ↔
        s.isVisible scope name = true ∧ e = .redeclaration name) ∧
      ∀ t, s.declare scope name value.ty = .ok t → ∃ u, t.assign scope name value = .ok u) ∧
    (∀ (value : Value) (t : Scopes), s.assign scope name value = .ok t →
      s.Assigned scope name value t) ∧
    (∀ (ty : Ty) (t : Scopes), s.declare scope name ty = .ok t → s.Declared scope name ty t) ∧
    ∀ (access access' : Access) (scope' : ScopeId) (other : String), s.Live scope' →
      name ≠ other → s.InAnyOrder (access.perform scope name) (access'.perform scope' other) := by
  refine ⟨fun access e t he => ?_, fun value => ⟨?_, fun e => ?_, fun t ht => ?_⟩,
    fun value t ht => ?_, fun ty t ht => ?_, fun access access' scope' other hl' hne => ?_⟩
  · exact access.perform_of_error hl he
  · exact Access.perform_declareAndAssign hl name value
  · exact perform_declareAndAssign_eq_error_iff hl
  · exact assign_of_declare hl ht
  · exact .of_assign h ht
  · exact .of_declare h ht
  · exact access.perform_comm access' hl hl' hne

/-- A scope that has declared a name, its parent, which has declared the same name later, a scope
under it, and a detached one. -/
def layered : Scopes :=
  ((((initial.push (some root)).put ⟨1⟩ "x" ⟨.bool, false, .untyped⟩).put root "x"
    ⟨.int, false, .untyped⟩).push (some ⟨1⟩)).push none

theorem layered_descending : layered.Descending := by
  have hinner : (initial.push (some root)).Descending :=
    descending_initial.push (by simp [live_initial_root])
  have hunder : (((initial.push (some root)).put ⟨1⟩ "x" ⟨.bool, false, .untyped⟩).put root "x"
      ⟨.int, false, .untyped⟩).Live ⟨1⟩ := by decide
  exact (((hinner.put _ _ _).put _ _ _).push (by simp [hunder])).push (by simp)

theorem layered_updates :
    layered.Descending ∧ layered.Live ⟨2⟩ ∧
    (∃ t, layered.assign ⟨2⟩ "x" (.bool true) = .ok t ∧
      layered.Assigned ⟨2⟩ "x" (.bool true) t ∧ t.slot ⟨1⟩ "x" = .ok ⟨.bool, true, .bool true⟩ ∧
      t.slot root "x" = layered.slot root "x") ∧
    ((Access.declareAndAssign (.int 3)).perform ⟨2⟩ "x" layered).1 = .error (.redeclaration "x") ∧
    layered.InAnyOrder ((Access.assign (.bool true)).perform ⟨2⟩ "x")
      ((Access.declareAndAssign (.int 3)).perform ⟨3⟩ "y") := by
  have hl : layered.Live ⟨2⟩ := by decide
  have hl' : layered.Live ⟨3⟩ := by decide
  obtain ⟨-, hintroduce, hassign, -, hcomm⟩ := updates_obey_store_laws layered_descending hl "x"
  obtain ⟨-, herror, -⟩ := hintroduce (.int 3)
  have hvisible : layered.isVisible ⟨2⟩ "x" = true := by cbv
  have ht : layered.assign ⟨2⟩ "x" (.bool true) =
      .ok (layered.put ⟨1⟩ "x" ⟨.bool, true, .bool true⟩) := by cbv
  have hassigned := hassign _ _ ht
  refine ⟨layered_descending, hl, ⟨_, ht, hassigned, by cbv, ?_⟩,
    (herror _).2 ⟨hvisible, rfl⟩, hcomm _ _ _ _ hl' (by decide)⟩
  apply hassigned.others root "x" (by decide)
  rintro ⟨-, hsame⟩
  have hother : layered.holder? root "x" ≠ layered.holder? ⟨2⟩ "x" := by decide +kernel
  exact hother hsame

end MethodLang.Scopes
