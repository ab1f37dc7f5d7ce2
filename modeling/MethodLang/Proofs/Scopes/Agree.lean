import MethodLang.Proofs.Scopes.Chain

/-!
# Arenas that agree

Two arenas have the same links if they have the same scopes with the same parents, and agree off
some scopes if they also have the same bindings in every other scope. One arena extends another if
it has the scopes of the other as they are, and perhaps later ones.

* `SameLinks.push` and `SameLinks.release` carry equal links into a new scope and out of it;
* `AgreeOff.push` and `AgreeOff.release` do so for agreement;
* `Extends.release_eq` says that releasing what came on top of an arena gives it back;
* `agreeOff_put` says that binding a name changes one scope only;
* `resolve_put_of_ne` and `put_comm` keep bindings of different names apart;
* `env_push_next`, `AgreeOff.envAbove_release`, `env_put_self` and `env_put_holder` say what opening
  a scope, releasing it, declaring and assigning do to environments.
-/

namespace MethodLang.Scopes

variable {s t u : Scopes} {scope id holder : ScopeId} {parent : Option ScopeId} {name : String}
  {slot : Slot} {touched : List ScopeId}

/-! ### Extensions -/

/-- Every scope of the first arena is in the second, as it is. -/
def Extends (s t : Scopes) : Prop := ∀ id, s.Live id → t.frame? id = s.frame? id

theorem Extends.live (h : s.Extends t) (hl : s.Live id) : t.Live id := by
  rw [live_iff_frame?, h id hl]
  exact live_iff_frame?.1 hl

theorem Extends.chain (h : s.Extends t) (hl : s.Live scope) : t.chain scope = s.chain scope := by
  induction scope, hl using Live.induction with
  | step scope hl ih =>
    have hparent : t.parent? scope = s.parent? scope := by
      rw [Scopes.parent?, h scope hl, Scopes.parent?]
    rw [chain_of_live hl, chain_of_live (h.live hl), hparent]
    cases hp : s.parent? scope with
    | none => rfl
    | some p => simp [ih p hp]

theorem Extends.env (h : s.Extends t) (hl : s.Live scope) : t.env scope = s.env scope := by
  rw [Scopes.env, h.chain hl, Scopes.env]
  exact List.map_congr_left fun id hid => slotsAt_congr (h id (live_of_mem_chain hid))

theorem Extends.above (h : s.Extends t) (hp : ∀ p ∈ parent, s.Live p) :
    t.above parent = s.above parent := by
  cases parent with
  | none => rfl
  | some p => exact h.chain (hp p rfl)

theorem Extends.envAbove (h : s.Extends t) (hp : ∀ p ∈ parent, s.Live p) :
    t.envAbove parent = s.envAbove parent := by
  cases parent with
  | none => rfl
  | some p => exact h.env (hp p rfl)

theorem extends_push (s : Scopes) (parent : Option ScopeId) : s.Extends (s.push parent) :=
  fun id hl => by rw [frame?_push, if_neg hl.ne_next]

theorem extends_release (s : Scopes) (scope : ScopeId) : (s.release scope).Extends s := by
  intro id hl
  have hlt : id.index < (s.release scope).size := hl
  rw [size_release] at hlt
  rw [frame?_release, if_pos (by omega)]

/-! ### New scopes -/

theorem parent?_push_next (hp : ∀ p ∈ parent, s.Live p) :
    (s.push parent).parent? s.next = parent := by
  rw [Scopes.parent?, frame?_push, if_pos rfl]
  cases parent with
  | none => rfl
  | some p =>
    have hlt : p.index < s.next.index := hp p rfl
    simp [Option.filter_some, hlt]

/-- The chain of a new scope goes on with the chain of its parent. -/
theorem chain_push_next (hp : ∀ p ∈ parent, s.Live p) :
    (s.push parent).chain s.next = s.next :: s.above parent := by
  rw [chain_of_live (live_push_next s parent), parent?_push_next hp,
    (extends_push s parent).above hp]

/-- A new scope sees what its parent sees, behind no bindings of its own. -/
theorem env_push_next (hp : ∀ p ∈ parent, s.Live p) :
    (s.push parent).env s.next = .empty :: s.envAbove parent := by
  rw [env_of_live (live_push_next s parent), parent?_push_next hp,
    (extends_push s parent).envAbove hp, slotsAt, frame?_push, if_pos rfl]
  rfl

theorem live_of_mem_above (h : id ∈ s.above parent) : s.Live id := by
  cases parent with
  | none => simp at h
  | some p => exact live_of_mem_chain h

/-! ### Links -/

/-- A release leaves the older scopes as they are. -/
theorem frame?_release_of_live (hl : s.Live id) : (t.release s.next).frame? id = t.frame? id := by
  have hlt : id.index < s.next.index := hl
  rw [frame?_release, if_pos (Nat.lt_of_lt_of_le hlt (Nat.le_max_left _ _))]

theorem frame?_release_of_not_live (hs : 0 < s.size) (hl : ¬s.Live id) :
    (t.release s.next).frame? id = none := by
  rw [frame?_release, if_neg]
  simp only [Scopes.next, Live] at hl ⊢
  omega

/-- Releasing what was opened on top of an arena gives the arena back. -/
theorem Extends.release_eq (h : s.Extends t) (hs : 0 < s.size) : t.release s.next = s := by
  apply ext_frame
  intro id
  by_cases hl : s.Live id
  · rw [frame?_release_of_live hl, h id hl]
  · rw [frame?_release_of_not_live hs hl, frame?_eq_none_iff.2 (Nat.le_of_not_lt hl)]

/-- The same scopes are live, with the same parents. -/
def SameLinks (s t : Scopes) : Prop := ∀ id, t.link? id = s.link? id

namespace SameLinks

theorem refl (s : Scopes) : s.SameLinks s := fun _ => rfl

theorem trans (h : s.SameLinks t) (h' : t.SameLinks u) : s.SameLinks u :=
  fun id => (h' id).trans (h id)

/-- Other bindings in one scope change no link. -/
theorem of_frame? (g : Bindings → Bindings)
    (h : ∀ id, t.frame? id = if id = holder then
      (s.frame? id).map fun frame => { frame with slots := g frame.slots } else s.frame? id) :
    s.SameLinks t := by
  intro id
  rw [link?, link?, h]
  split
  · cases s.frame? id <;> rfl
  · rfl

theorem put (s : Scopes) (holder : ScopeId) (name : String) (slot : Slot) :
    s.SameLinks (s.put holder name slot) :=
  of_frame? (·.insert name slot) (frame?_put s holder name slot)

theorem live_iff (h : s.SameLinks t) : t.Live id ↔ s.Live id := live_congr (h id)

theorem size (h : s.SameLinks t) : t.size = s.size := by
  have hs : ∀ id, t.Live id ↔ s.Live id := fun _ => h.live_iff
  apply Nat.le_antisymm
  · exact Nat.le_of_not_lt fun hlt => Nat.lt_irrefl _ ((hs ⟨s.size⟩).1 hlt)
  · exact Nat.le_of_not_lt fun hlt => Nat.lt_irrefl _ ((hs ⟨t.size⟩).2 hlt)

theorem next (h : s.SameLinks t) : t.next = s.next := by
  rw [Scopes.next, h.size, Scopes.next]

theorem push (h : s.SameLinks t) (parent : Option ScopeId) :
    (s.push parent).SameLinks (t.push parent) := by
  intro id
  rw [link?, link?, frame?_push, frame?_push, h.next]
  split
  · rfl
  · exact h id

/-- The links are again as before once a scope that was opened is released. -/
theorem release (hs : 0 < s.size) (h : (s.push parent).SameLinks t) :
    s.SameLinks (t.release s.next) := by
  intro id
  by_cases hl : s.Live id
  · rw [link?, frame?_release_of_live hl, ← link?, h, link?, extends_push s parent id hl, link?]
  · rw [link?, frame?_release_of_not_live hs hl, link?,
      frame?_eq_none_iff.2 (Nat.le_of_not_lt hl)]

end SameLinks

/-! ### Agreement -/

/-- The same scopes with the same parents, and the same bindings but in the scopes `touched`. -/
structure AgreeOff (touched : List ScopeId) (s t : Scopes) : Prop where
  link : ∀ id, t.link? id = s.link? id
  frame : ∀ id ∉ touched, t.frame? id = s.frame? id

namespace AgreeOff

theorem refl (touched : List ScopeId) (s : Scopes) : AgreeOff touched s s :=
  ⟨fun _ => rfl, fun _ _ => rfl⟩

theorem trans (h : AgreeOff touched s t) (h' : AgreeOff touched t u) : AgreeOff touched s u :=
  ⟨fun id => (h'.link id).trans (h.link id), fun id hid => (h'.frame id hid).trans (h.frame id hid)⟩

theorem live_iff (h : AgreeOff touched s t) : t.Live id ↔ s.Live id := live_congr (h.link id)

theorem size (h : AgreeOff touched s t) : t.size = s.size := SameLinks.size h.link

theorem next (h : AgreeOff touched s t) : t.next = s.next := SameLinks.next h.link

theorem chain (h : AgreeOff touched s t) (scope : ScopeId) : t.chain scope = s.chain scope :=
  chain_congr h.link scope

theorem parent? (h : AgreeOff touched s t) (scope : ScopeId) :
    t.parent? scope = s.parent? scope := by
  rw [parent?_eq_link?, h.link, ← parent?_eq_link?]

theorem above (h : AgreeOff touched s t) (parent : Option ScopeId) :
    t.above parent = s.above parent :=
  above_congr h.link parent

/-- Other bindings in one scope change that scope only. -/
theorem of_frame? (g : Bindings → Bindings) (hholder : holder ∈ touched)
    (h : ∀ id, t.frame? id = if id = holder then
      (s.frame? id).map fun frame => { frame with slots := g frame.slots } else s.frame? id) :
    AgreeOff touched s t where
  link := SameLinks.of_frame? g h
  frame id hid := by rw [h, if_neg (ne_of_mem_of_not_mem hholder hid).symm]

/-- Agreement off nothing is equality. -/
theorem eq (h : AgreeOff [] s t) : t = s :=
  ext_frame fun id => h.frame id List.not_mem_nil

/-- What is visible does not depend on scopes that are not visible. -/
theorem envAbove_eq (h : AgreeOff touched s t) (hp : ∀ id ∈ s.above parent, id ∉ touched) :
    t.envAbove parent = s.envAbove parent := by
  rw [Scopes.envAbove, h.above, Scopes.envAbove]
  exact List.map_congr_left fun id hid => slotsAt_congr (h.frame id (hp id hid))

/-- Arenas that agree with another off the chain of a scope are equal if the environment of that
scope is. -/
theorem eq_of_env (ht : AgreeOff (s.chain scope) s t) (hu : AgreeOff (s.chain scope) s u)
    (henv : t.env scope = u.env scope) : t = u := by
  rw [Scopes.env, Scopes.env, ht.chain, hu.chain, List.map_inj_left] at henv
  refine ext_frame fun id => ?_
  by_cases hid : id ∈ s.chain scope
  · exact frame?_congr ((ht.link id).trans (hu.link id).symm) (henv id hid)
  · rw [ht.frame id hid, hu.frame id hid]

/-- Arenas that agree still do after a new scope is opened in both. -/
theorem push (h : AgreeOff (s.above parent) s t) :
    AgreeOff (s.next :: s.above parent) (s.push parent) (t.push parent) where
  link := SameLinks.push h.link parent
  frame id hid := by
    rw [List.mem_cons, not_or] at hid
    rw [frame?_push, frame?_push, h.next, if_neg hid.1, if_neg hid.1, h.frame id hid.2]

theorem frame?_of_push (h : AgreeOff (s.next :: touched) (s.push parent) t) (hl : s.Live id)
    (hid : id ∉ touched) : t.frame? id = s.frame? id := by
  rw [h.frame id (by simp [hl.ne_next, hid]), extends_push s parent id hl]

/-- Arenas that agree while a scope is open agree once it is released. -/
theorem release (hs : 0 < s.size) (h : AgreeOff (s.next :: touched) (s.push parent) t) :
    AgreeOff touched s (t.release s.next) where
  link := SameLinks.release hs h.link
  frame id hid := by
    by_cases hl : s.Live id
    · rw [frame?_release_of_live hl, h.frame?_of_push hl hid]
    · rw [frame?_release_of_not_live hs hl, frame?_eq_none_iff.2 (Nat.le_of_not_lt hl)]

/-- Releasing a scope drops the front of the environment. -/
theorem envAbove_release (hs : 0 < s.size) (hp : ∀ p ∈ parent, s.Live p)
    (h : AgreeOff (s.next :: touched) (s.push parent) t) :
    (t.release s.next).envAbove parent = (t.env s.next).tail := by
  rw [Scopes.envAbove, (h.release hs).above, Scopes.env, h.chain, chain_push_next hp, List.map_cons,
    List.tail_cons]
  exact List.map_congr_left fun id hid =>
    slotsAt_congr (frame?_release_of_live (live_of_mem_above hid))

end AgreeOff

/-! ### Binding a name -/

theorem agreeOff_put (h : holder ∈ touched) (s : Scopes) (name : String) (slot : Slot) :
    AgreeOff touched s (s.put holder name slot) :=
  .of_frame? (·.insert name slot) h (frame?_put s holder name slot)

theorem agreeOff_put_self (s : Scopes) (holder : ScopeId) (name : String) (slot : Slot) :
    AgreeOff [holder] s (s.put holder name slot) :=
  agreeOff_put List.mem_cons_self s name slot

theorem slotsAt_put_self (h : s.Live holder) (name : String) (slot : Slot) :
    (s.put holder name slot).slotsAt holder = (s.slotsAt holder).insert name slot := by
  obtain ⟨frame, hf⟩ := live_iff_frame?.1 h
  simp [slotsAt, frame?_put, hf]

theorem slotsAt_put_of_ne (h : id ≠ holder) (s : Scopes) (name : String) (slot : Slot) :
    (s.put holder name slot).slotsAt id = s.slotsAt id :=
  slotsAt_congr (by rw [frame?_put, if_neg h])

theorem parent?_put (s : Scopes) (holder : ScopeId) (name : String) (slot : Slot)
    (scope : ScopeId) : (s.put holder name slot).parent? scope = s.parent? scope :=
  (agreeOff_put_self s holder name slot).parent? scope

theorem live_put_iff : (s.put holder name slot).Live id ↔ s.Live id :=
  (agreeOff_put_self s holder name slot).live_iff

/-- A look-up of one name does not see what is bound to another. -/
theorem resolve_put_of_ne {other : String} (h : other ≠ name) (s : Scopes) (holder : ScopeId)
    (slot : Slot) (scope : ScopeId) :
    (s.put holder name slot).resolve scope other = s.resolve scope other := by
  have hown : (s.put holder name slot).own? other = s.own? other := by
    funext id
    rw [own?, own?, frame?_put]
    split
    · cases s.frame? id <;> simp [Bindings.find?_insert, h]
    · rfl
  rw [resolve_eq_findSome?, resolve_eq_findSome?, hown,
    (agreeOff_put_self s holder name slot).chain]

/-- Names that differ may be bound in either order. -/
theorem put_comm {other : String} (h : other ≠ name) (s : Scopes) (holder holder' : ScopeId)
    (slot slot' : Slot) :
    (s.put holder name slot).put holder' other slot' =
      (s.put holder' other slot').put holder name slot := by
  apply ext_frame
  intro id
  simp only [frame?_put]
  split
  · split
    · cases s.frame? id <;> simp [Bindings.insert_comm _ h]
    · rfl
  · rfl

theorem envAbove_put_of_not_mem (h : holder ∉ s.above parent) (name : String) (slot : Slot) :
    (s.put holder name slot).envAbove parent = s.envAbove parent :=
  (agreeOff_put_self s holder name slot).envAbove_eq fun _ hid =>
    mt List.mem_singleton.1 fun heq => h (heq ▸ hid)

/-- A declaration binds in front of the environment. -/
theorem env_put_self (h : s.Live scope) (name : String) (slot : Slot) :
    (s.put scope name slot).env scope = (s.env scope).bindFront name slot := by
  rw [env_of_live (live_put_iff.2 h), parent?_put, slotsAt_put_self h,
    envAbove_put_of_not_mem (s.not_mem_above_parent? scope), env_of_live h, Env.bindFront]

/-- An assignment replaces the nearest slot of the environment. -/
theorem env_put_holder {old : Slot} (h : s.Live scope)
    (hr : s.resolve scope name = some (holder, old)) (slot : Slot) :
    (s.put holder name slot).env scope = (s.env scope).store name slot := by
  induction scope, h using Live.induction with
  | step scope h ih =>
    rw [env_of_live (live_put_iff.2 h), parent?_put, env_of_live h]
    rw [resolve_of_live h] at hr
    cases hf : (s.slotsAt scope).find? name with
    | some found =>
      rw [hf] at hr
      obtain ⟨rfl, rfl⟩ := Prod.mk.inj (Option.some.inj hr)
      rw [Env.store_cons_of_find? hf, slotsAt_put_self h,
        envAbove_put_of_not_mem (s.not_mem_above_parent? scope)]
    | none =>
      rw [hf] at hr
      obtain ⟨p, hp, hr⟩ := Option.bind_eq_some_iff.1 hr
      have hne : scope ≠ holder := by
        rintro rfl
        exact Nat.lt_irrefl _ (Nat.lt_of_le_of_lt (index_le_of_mem_chain (mem_chain_of_resolve hr))
          (parent?_lt hp))
      rw [Env.store_cons_of_not_find? hf, slotsAt_put_of_ne hne, hp, envAbove_some, ih p hp hr,
        envAbove_some]

end MethodLang.Scopes
