import Mathlib.Order.RelClasses
import MethodLang.Proofs.Congruence
import MethodLang.Proofs.Lexical.Footprint
import MethodLang.Proofs.Scopes.Agree

/-!
# Later arenas

As long as a scope is live it loses no name, and no name in it changes its type: evaluation only
adds names and assigns. Scopes that evaluation opens come after those that were live, and are the
only ones that it releases.
-/

namespace MethodLang

/-- Any name. -/
abbrev anyName (_ : String) : Prop := True

/-- The second arena has the scopes of the first, with all their names and the types of these. -/
structure Scopes.Later (s t : Scopes) : Prop where
  live {id : ScopeId} (h : s.Live id) : t.Live id
  slots {id : ScopeId} (h : s.Live id) : (s.slotsAt id).Evolve anyName anyName (t.slotsAt id)

namespace Scopes

variable {s t u : Scopes} {scope id holder : ScopeId} {name : String}

instance : IsPreorder Scopes Later where
  refl _ :=
    { live := fun hl => hl
      slots := fun _ => .refl _ _ _ }
  trans _ _ _ h h' :=
    { live := fun hl => h'.live (h.live hl)
      slots := fun hl => (h.slots hl).trans (h'.slots (h.live hl)) }

/-- A name that was not visible is declared. -/
theorem later_put_new (h : s.resolve scope name = none) (slot : Slot) :
    s.Later (s.put scope name slot) where
  live := live_put_iff.2
  slots {id} hl := by
    by_cases heq : id = scope
    · subst heq
      rw [slotsAt_put_self hl]
      exact .insert_new (find?_of_resolve_eq_none h) trivial _ slot
    · rw [slotsAt_put_of_ne heq]
      exact .refl _ _ _

/-- A slot is assigned. -/
theorem later_put_assigned {slot : Slot} (h : s.resolve scope name = some (holder, slot))
    (value : Value) : s.Later (s.put holder name { slot with assigned := true, value }) where
  live := live_put_iff.2
  slots {id} hl := by
    by_cases heq : id = holder
    · subst heq
      rw [slotsAt_put_self hl]
      exact .insert_assigned (find?_of_resolve h) trivial _ value
    · rw [slotsAt_put_of_ne heq]
      exact .refl _ _ _

/-- What is done in a new scope until it is released. -/
theorem Later.of_push {parent : Option ScopeId} (h : (s.push parent).Later t) :
    s.Later (t.release s.next) where
  live {id} hl := by
    have hlive : t.Live id := h.live ((extends_push s parent).live hl)
    have hlt : id.index < s.next.index := hl
    simp only [Live, size_release] at hlive ⊢
    omega
  slots {id} hl := by
    have hreleased : (t.release s.next).slotsAt id = t.slotsAt id :=
      slotsAt_congr (frame?_release_of_live hl)
    rw [hreleased, ← slotsAt_congr (extends_push s parent id hl)]
    exact h.slots ((extends_push s parent).live hl)

/-- In a later arena a live scope has a slot of the same type under each of its names. -/
theorem Later.exists_slot {slot : Slot} (h : s.Later t) (hl : s.Live id)
    (hslot : (s.slotsAt id).find? name = some slot) :
    ∃ slot', t.resolve id name = some (id, slot') ∧ slot'.ty = slot.ty := by
  obtain ⟨slot', hslot', hty, -⟩ := (h.slots hl).keep name slot hslot
  refine ⟨slot', ?_, hty⟩
  rw [resolve_of_live (h.live hl), hslot']

end Scopes

/-- Evaluation only leads to later arenas. -/
theorem later_stable : Machine.Stable (Order.Preimage Machine.scopes Scopes.Later) where
  declare {m scope name ty scopes} h := by
    obtain ⟨hnone, rfl⟩ := Scopes.declare_eq_ok_iff.1 h
    exact Scopes.later_put_new hnone _
  assign {m scope name value scopes} h := by
    obtain ⟨holder, slot, hr, -, rfl⟩ := Scopes.assign_eq_ok_iff.1 h
    exact Scopes.later_put_assigned hr value
  readInt m := refl_of Scopes.Later m.scopes
  put m _ := refl_of Scopes.Later m.scopes
  inScope _ h := Scopes.Later.of_push h
  inCall _ h := h

end MethodLang
