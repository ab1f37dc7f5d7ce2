import MethodLang.Proofs.Lexical.Agreement

/-!
# Blocks in the lexical semantics

A block does what its statements do in the surrounding scope, and then the names that are new there
are forgotten. While it runs, the names it declares stand in bindings of their own, in front of
those that it finds; without the block they would stand among those. A look-up cannot tell the two
apart, as no name is ever in both.

* `Bindings.overlay` puts bindings over others, and `Bindings.restrict` takes them off again;
* `Env.Split` relates an environment with bindings in two places to the one that has them in one;
* `Lexical.execStmt_block` is the statement about blocks.
-/

namespace MethodLang

/-! ### Bindings over others -/

namespace Bindings

/-- The bindings `old` with the bindings `new` inserted. -/
def overlay (old new : Bindings) : Bindings :=
  new.entries.foldr (fun entry b => b.insert entry.1 entry.2) old

/-- The bindings of those names alone that are bound in `kept`. -/
def restrict (b kept : Bindings) : Bindings :=
  ⟨b.entries.filter fun entry => (kept.find? entry.1).isSome⟩

variable {old new kept b : Bindings} {name : String}

theorem overlay_cons (old : Bindings) (entry : String × Slot) (entries : List (String × Slot)) :
    old.overlay ⟨entry :: entries⟩ = (old.overlay ⟨entries⟩).insert entry.1 entry.2 := rfl

theorem find?_cons (key : String) (slot : Slot) (entries : List (String × Slot)) (name : String) :
    find? ⟨(key, slot) :: entries⟩ name = if name = key then some slot else find? ⟨entries⟩ name :=
  rfl

theorem find?_overlay (old new : Bindings) (name : String) :
    (old.overlay new).find? name = (new.find? name).or (old.find? name) := by
  obtain ⟨entries⟩ := new
  induction entries with
  | nil => rfl
  | cons entry entries ih =>
    obtain ⟨key, slot⟩ := entry
    rw [overlay_cons, find?_insert, find?_cons, ih]
    split
    · rfl
    · rfl

/-- What is bound above is bound in the whole. -/
theorem overlay_insert (old new : Bindings) (name : String) (slot : Slot) :
    old.overlay (new.insert name slot) = (old.overlay new).insert name slot := by
  obtain ⟨entries⟩ := new
  show old.overlay ⟨place name slot entries⟩ = (old.overlay ⟨entries⟩).insert name slot
  induction entries with
  | nil => rfl
  | cons entry entries ih =>
    obtain ⟨key, held⟩ := entry
    rw [overlay_cons, place]
    by_cases heq : name = key
    · subst heq
      rw [if_pos rfl, overlay_cons, insert_insert]
    · rw [if_neg heq]
      by_cases hlt : name < key
      · rw [if_pos hlt, overlay_cons, overlay_cons]
      · rw [if_neg hlt, overlay_cons, ih, insert_comm _ heq]

/-- What is bound below, and not above, is bound in the whole. -/
theorem insert_overlay (old : Bindings) (h : new.find? name = none) (slot : Slot) :
    (old.insert name slot).overlay new = (old.overlay new).insert name slot := by
  obtain ⟨entries⟩ := new
  induction entries with
  | nil => rfl
  | cons entry entries ih =>
    obtain ⟨key, held⟩ := entry
    rw [find?_cons] at h
    split at h
    · cases h
    · next hne => rw [overlay_cons, overlay_cons, ih h, insert_comm _ hne]

theorem restrict_insert (h : kept.find? name = none) (b : Bindings) (slot : Slot) :
    (b.insert name slot).restrict kept = b.restrict kept := by
  obtain ⟨entries⟩ := b
  simp only [insert, restrict, mk.injEq]
  induction entries with
  | nil => simp [place, h]
  | cons entry entries ih =>
    obtain ⟨key, held⟩ := entry
    rw [place]
    by_cases heq : name = key
    · subst heq
      simp [h]
    · rw [if_neg heq]
      by_cases hlt : name < key
      · simp [hlt, h]
      · rw [if_neg hlt, List.filter_cons, List.filter_cons, ih]

/-- Names that are not kept are taken off. -/
theorem restrict_overlay (h : ∀ name, new.find? name ≠ none → kept.find? name = none)
    (old : Bindings) : (old.overlay new).restrict kept = old.restrict kept := by
  obtain ⟨entries⟩ := new
  induction entries with
  | nil => rfl
  | cons entry entries ih =>
    obtain ⟨key, slot⟩ := entry
    simp only [find?_cons] at h
    rw [overlay_cons, restrict_insert (h key (by simp)), ih]
    intro name hname
    apply h
    split
    · simp
    · exact hname

theorem restrict_eq_self (h : ∀ name, b.find? name ≠ none → kept.find? name ≠ none) :
    b.restrict kept = b := by
  obtain ⟨entries⟩ := b
  simp only [restrict, mk.injEq, List.filter_eq_self]
  intro entry hentry
  rw [Option.isSome_iff_ne_none]
  exact h _ (find?_ne_none_of_mem_names (List.mem_map_of_mem hentry))

end Bindings

/-! ### Environments with bindings in one place or in two -/

namespace Env

/-- With the front bindings restricted to the names of `kept`. -/
def restrictFront (kept : Bindings) : Env → Env
  | [] => []
  | b :: rest => b.restrict kept :: rest

/-- Behind `k` bindings that both have, the first environment has `new` in front of `old` where the
second one has both in one. The names of `old` are those of `kept`, and no name of `new` is. -/
inductive Split (kept : Bindings) : Nat → Env → Env → Prop
  | here {new old : Bindings} {rest : Env}
      (hnew : ∀ name, new.find? name ≠ none → kept.find? name = none)
      (hold : ∀ name, old.find? name = none ↔ kept.find? name = none) :
      Split kept 0 (new :: old :: rest) (old.overlay new :: rest)
  | behind {k : Nat} {env env' : Env} (b : Bindings) (h : Split kept k env env') :
      Split kept (k + 1) (b :: env) (b :: env')

namespace Split

variable {kept : Bindings} {k : Nat} {env env' : Env} {name : String}

/-- Dropping the front bindings is forgetting the names that are not to be kept. -/
theorem tail_eq (h : Split kept 0 env env') : env.tail = restrictFront kept env' := by
  cases h with
  | here hnew hold =>
    rw [restrictFront, Bindings.restrict_overlay hnew, Bindings.restrict_eq_self, List.tail_cons]
    exact fun name => mt (hold name).2

theorem slot? (h : Split kept k env env') (name : String) : env.slot? name = env'.slot? name := by
  induction h with
  | here hnew hold => simp only [slot?_cons, Bindings.find?_overlay, Option.or_assoc]
  | behind b h ih => rw [slot?_cons, slot?_cons, ih]

/-- A name that is not to be kept may be bound in front. -/
theorem here_insert {new old : Bindings} (rest : Env)
    (hnew : ∀ name, new.find? name ≠ none → kept.find? name = none)
    (hold : ∀ name, old.find? name = none ↔ kept.find? name = none)
    (hname : kept.find? name = none) (slot : Slot) :
    Split kept 0 (new.insert name slot :: old :: rest)
      ((old.overlay new).insert name slot :: rest) := by
  rw [← Bindings.overlay_insert]
  refine .here (fun other hother => ?_) hold
  rw [Bindings.find?_insert] at hother
  split at hother
  · next heq => exact heq ▸ hname
  · exact hnew other hother

theorem bindFront (h : Split kept k env env') (hfree : env.slot? name = none) (slot : Slot) :
    Split kept k (env.bindFront name slot) (env'.bindFront name slot) := by
  cases h with
  | here hnew hold =>
    simp only [slot?_cons, Option.or_eq_none_iff] at hfree
    exact here_insert _ hnew hold ((hold name).1 hfree.2.1) slot
  | behind b h => exact .behind _ h

theorem store (h : Split kept k env env') (name : String) (slot : Slot) :
    Split kept k (env.store name slot) (env'.store name slot) := by
  induction h with
  | @here new old rest hnew hold =>
    have hoverlay := Bindings.find?_overlay old new name
    -- the slot is among the new ones, among those behind them or further out
    cases hn : new.find? name with
    | some held =>
      rw [hn, Option.some_or] at hoverlay
      rw [store_cons_of_find? hn, store_cons_of_find? hoverlay]
      exact here_insert rest hnew hold (hnew name (by simp [hn])) slot
    | none =>
      rw [hn, Option.none_or] at hoverlay
      rw [store_cons_of_not_find? hn]
      cases ho : old.find? name with
      | some held =>
        rw [store_cons_of_find? ho, store_cons_of_find? (hoverlay.trans ho),
          ← Bindings.insert_overlay old hn]
        refine .here hnew fun other => ?_
        rw [Bindings.find?_insert]
        split
        · next heq => simpa [heq, ho] using hold name
        · exact hold other
      | none =>
        rw [store_cons_of_not_find? ho, store_cons_of_not_find? (hoverlay.trans ho)]
        exact .here hnew hold
  | behind b h ih =>
    cases hb : b.find? name with
    | some held =>
      rw [store_cons_of_find? hb, store_cons_of_find? hb]
      exact .behind _ h
    | none =>
      rw [store_cons_of_not_find? hb, store_cons_of_not_find? hb]
      exact .behind b ih

end Split

end Env

namespace Lexical

/-- Whether bindings stand in one place or in two makes no difference to any name. -/
theorem agreement_split (kept : Bindings) : Agreement (fun _ => True) (Env.Split kept) where
  slot? h _ := h.slot? _
  bindFront h _ := h.bindFront
  store h _ _ := h.store _
  push h := .behind _ h
  tail h := by
    cases h with
    | behind b h => exact h

/-- A block does what its statements do in the surrounding scope, and forgets the names that are
new there. -/
theorem execStmt_block (w : Setting) (n : Nat) (act : Activation) (body : List Stmt) (b : Bindings)
    (env : Env) (console : Console) :
    execStmt w n act (.block body) ⟨b :: env, console⟩ =
      (execStmt w n act (.seq body) ⟨b :: env, console⟩).mapState fun s =>
        { s with env := s.env.restrictFront b } := by
  cases n with
  | zero => rfl
  | succ n =>
    have halike : Action.Alike (State.Agree (Env.Split b 0))
        (execAll (fun st => execStmt w n act st) body)
        (execAll (fun st => execStmt w n act st) body) :=
      .execAll body fun st _ =>
        (agreement_split b).execStmt w n (fun _ _ => trivial) (fun _ _ => trivial) 0
    -- in the beginning the bindings of the block are empty, and those behind them are `b` itself
    have hopen : State.Agree (Env.Split b 0) ⟨.empty :: b :: env, console⟩ ⟨b :: env, console⟩ :=
      ⟨.here (fun name hname => (hname (Bindings.find?_empty name)).elim) fun _ => .rfl, rfl⟩
    rw [execStmt, execStmt, inFront]
    refine (halike _ _ hopen).mapState_eq_mapState fun s t hst => ?_
    rw [hst.env.tail_eq, hst.console]

end Lexical

end MethodLang
