import Mathlib
import MethodLang.Proofs.Shadowing
import MethodLang.Proofs.StoreLaws

/-!
# Walks up the chain

A look-up follows parent links for as long as there are any: nothing in the walk itself says that
it ends, or that it stays among live scopes. Both follow from the order of the arena, in which
parents are older than their children. Opening a scope under a live one and releasing the last one
keep this order, although a release lets indices be used again.

* `Walk` is the walk of a look-up and `Lineage` the chain of a scope, both link by link and without
  any bound;
* `Descending.exists_walk`, `Walk.unique` and `Descending.lineage_iff` say that there is exactly one
  of each where parents are older;
* `Built` collects the arenas that proper operations lead to, and `Built.descending` says that in
  all of them parents are older;
* `Extends.apply` says that operations that keep to later scopes leave the older ones alone;
* `lookups_find_nearest_declaration` says all of it of every arena that operations build.
-/

namespace MethodLang.Scopes

variable {s t : Scopes} {scope id holder p : ScopeId} {name : String} {slot : Slot}
  {visited visited' : List ScopeId} {found found' : Option (ScopeId × Slot)}

/-! ### Walks -/

/-- The walk of a look-up: it reads a scope, which must be live, and ends there if the name is bound
or there is no parent; else it goes on with the parent. It comes with the scopes that it reads, in
order, and with what it finds. -/
inductive Walk (s : Scopes) (name : String) :
    ScopeId → List ScopeId → Option (ScopeId × Slot) → Prop
  | bound {scope : ScopeId} {slot : Slot} (hslot : (s.slotsAt scope).find? name = some slot) :
      Walk s name scope [scope] (some (scope, slot))
  | top {scope : ScopeId} (hnone : (s.slotsAt scope).find? name = none)
      (hlink : s.link? scope = some none) : Walk s name scope [scope] none
  | up {scope p : ScopeId} {visited : List ScopeId} {found : Option (ScopeId × Slot)}
      (hnone : (s.slotsAt scope).find? name = none) (hlink : s.link? scope = some (some p))
      (hrest : Walk s name p visited found) : Walk s name scope (scope :: visited) found

/-- A scope, its parent, and so on, up to a scope without a parent. -/
inductive Lineage (s : Scopes) : ScopeId → List ScopeId → Prop
  | top {scope : ScopeId} (hlink : s.link? scope = some none) : Lineage s scope [scope]
  | up {scope p : ScopeId} {rest : List ScopeId} (hlink : s.link? scope = some (some p))
      (hrest : Lineage s p rest) : Lineage s scope (scope :: rest)

/-- There is one way to walk. -/
theorem Walk.unique (h : s.Walk name scope visited found) (h' : s.Walk name scope visited' found') :
    visited' = visited ∧ found' = found := by
  induction h generalizing visited' found' with
  | bound hslot =>
    cases h' with
    | bound hslot' => simp [Option.some.inj (hslot.symm.trans hslot')]
    | top hnone | up hnone => simp [hslot] at hnone
  | top hnone hlink =>
    cases h' with
    | bound hslot => simp [hslot] at hnone
    | top => exact ⟨rfl, rfl⟩
    | up _ hlink' => simp [hlink] at hlink'
  | up hnone hlink _ ih =>
    cases h' with
    | bound hslot => simp [hslot] at hnone
    | top _ hlink' => simp [hlink] at hlink'
    | up _ hlink' hrest' =>
      obtain rfl := Option.some.inj (Option.some.inj (hlink.symm.trans hlink'))
      obtain ⟨rfl, rfl⟩ := ih hrest'
      exact ⟨rfl, rfl⟩

/-- Where parents are older, look-ups follow all links. -/
theorem Descending.link?_eq (h : s.Descending) (hl : s.Live scope) :
    s.link? scope = some (s.parent? scope) := by
  obtain ⟨parent, hlink⟩ := Option.ne_none_iff_exists'.1 (live_iff_link?.1 hl)
  cases parent with
  | none => simp [parent?_eq_link?, hlink]
  | some p => rw [hlink, h.parent?_eq hlink]

/-- Where parents are older, every look-up ends, having read the first scopes of the chain. -/
theorem Descending.exists_walk (h : s.Descending) (hl : s.Live scope) (name : String) :
    ∃ visited, s.Walk name scope visited (s.resolve scope name) ∧ visited <+: s.chain scope := by
  induction scope, hl using Live.induction with
  | step scope hl ih =>
    rw [resolve_of_live hl, chain_of_live hl]
    cases hf : (s.slotsAt scope).find? name with
    | some slot => exact ⟨[scope], .bound hf, by simp⟩
    | none =>
      have hlink := h.link?_eq hl
      cases hp : s.parent? scope with
      | none => exact ⟨[scope], .top hf (hp ▸ hlink), by simp⟩
      | some p =>
        obtain ⟨visited, hwalk, hbegins⟩ := ih p hp
        exact ⟨scope :: visited, .up hf (hp ▸ hlink) hwalk, by simpa using hbegins⟩

theorem Descending.lineage_iff (h : s.Descending) (hl : s.Live scope) {l : List ScopeId} :
    s.Lineage scope l ↔ l = s.chain scope := by
  induction scope, hl using Live.induction generalizing l with
  | step scope hl ih =>
    have hlink := h.link?_eq hl
    rw [chain_of_live hl]
    cases hp : s.parent? scope with
    | none =>
      rw [hp] at hlink
      constructor
      · intro hlineage
        cases hlineage with
        | top => rfl
        | up hlink' => simp [hlink] at hlink'
      · rintro rfl
        exact .top hlink
    | some p =>
      rw [hp] at hlink
      constructor
      · intro hlineage
        cases hlineage with
        | top hlink' => simp [hlink] at hlink'
        | up hlink' hrest =>
          obtain rfl := Option.some.inj (Option.some.inj (hlink.symm.trans hlink'))
          rw [(ih p hp).1 hrest, above_some]
      · rintro rfl
        exact .up hlink ((ih p hp).2 rfl)

/-- Parents are older, so nothing goes up forever. -/
theorem Descending.wellFounded (h : s.Descending) :
    WellFounded fun p id => s.link? id = some (some p) :=
  Subrelation.wf (fun hlink => h _ _ hlink) (InvImage.wf ScopeId.index Nat.lt_wfRel.wf)

theorem length_chain_le (hl : s.Live scope) : (s.chain scope).length ≤ scope.index + 1 := by
  induction scope, hl using Live.induction with
  | step scope hl ih =>
    rw [chain_of_live hl, List.length_cons]
    cases hp : s.parent? scope with
    | none => simp
    | some p =>
      have hlt := parent?_lt hp
      have hle := ih p hp
      rw [above_some]
      omega

/-- A look-up finds the nearest scope on the chain that binds the name. -/
theorem resolve_eq_some_iff_nearest :
    s.resolve scope name = some (holder, slot) ↔
      ∃ before after, s.chain scope = before ++ holder :: after ∧
        (∀ id ∈ before, ¬s.Binds id name) ∧ (s.slotsAt holder).find? name = some slot := by
  rw [resolve_eq_findSome?, List.findSome?_eq_some_iff]
  constructor
  · rintro ⟨before, id, after, hchain, hown, hbefore⟩
    rw [own?_eq, Option.map_eq_some_iff] at hown
    obtain ⟨_, hslot, heq⟩ := hown
    cases heq
    refine ⟨before, after, hchain, fun id hid => ?_, hslot⟩
    simpa [own?_eq, Binds] using hbefore id hid
  · rintro ⟨before, after, hchain, hbefore, hslot⟩
    refine ⟨before, holder, after, hchain, ?_, fun id hid => ?_⟩
    · rw [own?_eq, hslot, Option.map_some]
    · simpa [own?_eq, Binds] using hbefore id hid

/-! ### Arenas that operations build -/

/-- Proper operations lead here from the initial arena. -/
def Built (s : Scopes) : Prop :=
  ∃ ops, initial.Throughout Operation.Proper ops ∧ initial.applyAll ops = s

theorem Descending.write (h : s.Descending) (name : String) (binding : Option (ScopeId × Slot)) :
    (s.write name binding).Descending := by
  cases binding with
  | none => exact h
  | some binding => exact h.put _ _ _

/-- A proper operation keeps parents older. -/
theorem Descending.apply (h : s.Descending) {op : Operation} (hop : op.Proper s) :
    (op.apply s).Descending := by
  cases op with
  | enter parent => exact h.push hop
  | release scope => exact h.release scope
  | access what scope name =>
    rw [Operation.apply, what.perform_eq hop]
    exact h.write name _

/-- The root is never released. -/
theorem size_pos_apply (h : 0 < s.size) {op : Operation} (hop : op.Proper s) :
    0 < (op.apply s).size := by
  cases op with
  | enter parent =>
    rw [Operation.apply, size_push]
    omega
  | release scope =>
    rw [Operation.apply, size_release]
    omega
  | access what scope name =>
    rwa [Operation.apply, what.perform_eq hop, size_write]

theorem Built.descending (h : s.Built) : s.Descending := by
  obtain ⟨ops, hops, rfl⟩ := h
  exact hops.preserves (fun _ _ hs hop => hs.apply hop) descending_initial

theorem Built.size_pos (h : s.Built) : 0 < s.size := by
  obtain ⟨ops, hops, rfl⟩ := h
  exact hops.preserves (I := fun t => 0 < t.size) (fun _ _ hs hop => size_pos_apply hs hop)
    Nat.zero_lt_one

/-! ### Operations in later scopes -/

theorem Extends.write (h : s.Extends t) {binding : Option (ScopeId × Slot)}
    (hbinding : ∀ holder slot, binding = some (holder, slot) → s.next.index ≤ holder.index)
    (name : String) : s.Extends (t.write name binding) := by
  cases binding with
  | none => exact h
  | some binding =>
    intro id hl
    have hle : s.size ≤ binding.1.index := hbinding _ _ rfl
    have hne : id ≠ binding.1 := by
      rintro rfl
      exact Nat.not_le_of_lt hl hle
    rw [Scopes.write, frame?_put, if_neg hne, h id hl]

/-- What an access that keeps to a scope and later ones binds, it binds in these. -/
theorem le_holder_of_within {base : ScopeId} {what : Access}
    (hw : (Operation.access what scope name).Within base s)
    (h : (what.respond scope name (s.resolve scope name)).2 = some (holder, slot)) :
    base.index ≤ holder.index := by
  rcases Access.holder_of_respond h with ⟨⟨value, rfl⟩, hholder⟩ | ⟨⟨ty, rfl⟩ | ⟨value, rfl⟩, rfl⟩
  · exact hw holder hholder
  · exact hw
  · exact hw

/-- Operations that keep to later scopes leave the older ones as they are. -/
theorem Extends.apply (h : s.Extends t) {op : Operation} (hop : op.Proper t)
    (hw : op.Within s.next t) : s.Extends (op.apply t) := by
  cases op with
  | enter parent =>
    intro id hl
    rw [Operation.apply, extends_push t parent id (h.live hl), h id hl]
  | release scope =>
    intro id hl
    have hlt : id.index < scope.index := Nat.lt_of_lt_of_le hl hw
    rw [Operation.apply, frame?_release, if_pos (by omega), h id hl]
  | access what scope name =>
    rw [Operation.apply, what.perform_eq hop]
    exact h.write (fun _ _ hbinding => le_holder_of_within hw hbinding) name

/-! ### Look-ups -/

/-- What a look-up of a name does from a scope: it walks one way, which ends after at most as many
scopes as there are up to its start, all of them live, and finds what `resolve` gives. That is the
nearest declaration on the chain of the scope, and nothing exactly if there is none on it. -/
structure FindsNearest (s : Scopes) (scope : ScopeId) (name : String) : Prop where
  walk : ∃ visited,
    (∀ visited' found, s.Walk name scope visited' found ↔
      visited' = visited ∧ found = s.resolve scope name) ∧
    (∀ id ∈ visited, s.Live id) ∧ visited.length ≤ scope.index + 1
  lineage : ∀ l, s.Lineage scope l ↔ l = s.chain scope
  nearest : ∀ holder slot, s.resolve scope name = some (holder, slot) ↔
    ∃ before after, s.chain scope = before ++ holder :: after ∧
      (∀ id ∈ before, ¬s.Binds id name) ∧ (s.slotsAt holder).find? name = some slot
  absent : s.resolve scope name = none ↔ ∀ id ∈ s.chain scope, ¬s.Binds id name

theorem Descending.findsNearest (h : s.Descending) (hl : s.Live scope) (name : String) :
    s.FindsNearest scope name where
  walk := by
    obtain ⟨visited, hwalk, hbegins⟩ := h.exists_walk hl name
    refine ⟨visited, fun visited' found => ⟨hwalk.unique, ?_⟩, fun id hid => ?_, ?_⟩
    · rintro ⟨rfl, rfl⟩
      exact hwalk
    · exact live_of_mem_chain (hbegins.subset hid)
    · exact hbegins.length_le.trans (length_chain_le hl)
  lineage _ := h.lineage_iff hl
  nearest _ _ := resolve_eq_some_iff_nearest
  absent := resolve_eq_none_iff

/-- In every arena that proper operations build, parents are older than their children, so that no
way up is endless, and every look-up from a live scope walks a bounded number of live scopes to the
nearest declaration. Opening a scope, doing whatever declares only in it or in later scopes and
assigns only names that are found there, and releasing it gives the arena back. -/
theorem lookups_find_nearest_declaration (h : s.Built) :
    s.Descending ∧ (WellFounded fun p id => s.link? id = some (some p)) ∧
    (∀ scope, s.Live scope → ∀ name, s.FindsNearest scope name) ∧
    ∀ (parent : Option ScopeId) (ops : List Operation),
      (s.push parent).Throughout (fun t op => op.Proper t ∧ op.Within s.next t) ops →
      ((s.push parent).applyAll ops).release s.next = s := by
  refine ⟨h.descending, h.descending.wellFounded,
    fun scope hl name => h.descending.findsNearest hl name, fun parent ops hops => ?_⟩
  -- whatever happens above, the scopes that were there stay as they are
  have hextends : s.Extends ((s.push parent).applyAll ops) :=
    hops.preserves (fun _ _ ht hop => ht.apply hop.1 hop.2) (extends_push s parent)
  exact hextends.release_eq h.size_pos

/-- Operations that build `layered`; one index is used twice. -/
def layering : List Operation :=
  [.enter none, .release ⟨1⟩, .enter (some root), .access (.declare .bool) ⟨1⟩ "x",
    .access (.declare .int) root "x", .enter (some ⟨1⟩), .enter none]

theorem layered_lookups :
    layered.Built ∧ layered.Live ⟨2⟩ ∧
    layered.Walk "x" ⟨2⟩ [⟨2⟩, ⟨1⟩] (some (⟨1⟩, ⟨.bool, false, .untyped⟩)) ∧
    layered.resolve ⟨2⟩ "x" = some (⟨1⟩, ⟨.bool, false, .untyped⟩) ∧
    layered.Lineage ⟨2⟩ [⟨2⟩, ⟨1⟩, root] ∧
    ((layered.push (some ⟨2⟩)).applyAll
      [.access (.declareAndAssign (.int 7)) ⟨4⟩ "y", .enter (some ⟨4⟩),
        .access (.assign (.int 8)) ⟨5⟩ "y", .access (.declare .int) ⟨5⟩ "x",
        .release ⟨5⟩]).release ⟨4⟩ = layered := by
  have hbuilt : layered.Built := ⟨layering, by decide +kernel, by decide +kernel⟩
  have hl : layered.Live ⟨2⟩ := by decide
  obtain ⟨-, -, hfind, hrestore⟩ := lookups_find_nearest_declaration hbuilt
  obtain ⟨⟨visited, hwalks, -, -⟩, hlineage, -, -⟩ := hfind ⟨2⟩ hl "x"
  have hwalk : layered.Walk "x" ⟨2⟩ [⟨2⟩, ⟨1⟩] (some (⟨1⟩, ⟨.bool, false, .untyped⟩)) :=
    .up (by cbv) (by cbv) (.bound (by cbv))
  exact ⟨hbuilt, hl, hwalk, ((hwalks _ _).1 hwalk).2.symm, (hlineage _).2 (by cbv),
    hrestore _ _ (by decide +kernel)⟩

end MethodLang.Scopes
