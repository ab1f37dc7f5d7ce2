import Mathlib
import MethodLang.Proofs.Congruence
import MethodLang.Proofs.Results
import MethodLang.Proofs.Scopes.Agree

/-!
# Types of slots

A slot that holds a value holds one of its declared type. Declarations leave a slot without a
value, or with one that gave it its type; assignments check the type. No other step touches a slot,
so this holds of every arena that scope operations and evaluation lead to.

* `wellTyped_stable` says that no step of evaluation breaks it;
* `Scopes.Reachable` collects the arenas that operations and evaluation lead to, in any order and
  with any arguments, whether they succeed or fail;
* `reachable_slots_hold_their_type` says it of all of them, so that the absent value is seen only
  where it was stored.
-/

namespace MethodLang

/-! ### Slots, scopes and arenas -/

/-- An unassigned slot holds the absent value, and an assigned slot a value of its declared type. -/
def Slot.WellTyped (slot : Slot) : Prop :=
  (slot.assigned = false → slot.value = .untyped) ∧
    (slot.assigned = true → slot.value.ty = slot.ty)

def Bindings.WellTyped (b : Bindings) : Prop := ∀ entry ∈ b.entries, entry.2.WellTyped

def Scopes.WellTyped (s : Scopes) : Prop := ∀ frame ∈ s.frames, frame.slots.WellTyped

theorem Slot.wellTyped_unassigned (ty : Ty) : Slot.WellTyped ⟨ty, false, .untyped⟩ :=
  ⟨fun _ => rfl, fun h => absurd h Bool.false_ne_true⟩

theorem Slot.wellTyped_assigned {ty : Ty} {value : Value} (h : ty = value.ty) :
    Slot.WellTyped ⟨ty, true, value⟩ :=
  ⟨fun hassigned => absurd hassigned.symm Bool.false_ne_true, fun _ => h.symm⟩

namespace Bindings

theorem WellTyped.empty : Bindings.empty.WellTyped := by
  intro entry h
  cases h

theorem mem_place {name : String} {slot : Slot} {l : List (String × Slot)}
    {entry : String × Slot} (h : entry ∈ place name slot l) : entry = (name, slot) ∨ entry ∈ l := by
  induction l with
  | nil => simpa [place] using h
  | cons head rest ih =>
    obtain ⟨key, old⟩ := head
    rw [place] at h
    split at h
    · rw [List.mem_cons] at h ⊢
      exact h.imp_right .inr
    · split at h
      · rwa [List.mem_cons] at h
      · rw [List.mem_cons] at h ⊢
        rcases h with h | h
        · exact .inr (.inl h)
        · exact (ih h).imp_right .inr

theorem mem_of_search {name : String} {slot : Slot} {l : List (String × Slot)}
    (h : search name l = some slot) : (name, slot) ∈ l := by
  induction l with
  | nil => cases h
  | cons head rest ih =>
    obtain ⟨key, old⟩ := head
    rw [search] at h
    split at h
    · next heq =>
      cases h
      rw [heq]
      exact List.mem_cons_self
    · exact List.mem_cons_of_mem _ (ih h)

theorem WellTyped.insert {b : Bindings} {slot : Slot} (h : b.WellTyped) (hslot : slot.WellTyped)
    (name : String) : (b.insert name slot).WellTyped := by
  intro entry hentry
  rcases mem_place hentry with rfl | hentry
  · exact hslot
  · exact h entry hentry

theorem WellTyped.find? {b : Bindings} {name : String} {slot : Slot} (h : b.WellTyped)
    (hslot : b.find? name = some slot) : slot.WellTyped :=
  h (name, slot) (mem_of_search hslot)

end Bindings

namespace Scopes

variable {s : Scopes} {scope holder : ScopeId} {name : String} {slot : Slot}

theorem wellTyped_iff_frame? :
    s.WellTyped ↔ ∀ scope frame, s.frame? scope = some frame → frame.slots.WellTyped := by
  constructor
  · intro h scope frame hframe
    exact h frame (Array.mem_of_getElem? hframe)
  · intro h frame hframe
    obtain ⟨i, hi⟩ := Array.mem_iff_getElem?.1 hframe
    exact h ⟨i⟩ frame hi

theorem WellTyped.initial : initial.WellTyped := by
  intro frame hframe
  obtain rfl : frame = ⟨none, .empty⟩ := by simpa [Scopes.initial] using hframe
  exact .empty

theorem WellTyped.slotsAt (h : s.WellTyped) (scope : ScopeId) : (s.slotsAt scope).WellTyped := by
  rw [Scopes.slotsAt]
  cases hf : s.frame? scope with
  | none => exact .empty
  | some frame => exact wellTyped_iff_frame?.1 h scope frame hf

theorem WellTyped.resolve (h : s.WellTyped) (hr : s.resolve scope name = some (holder, slot)) :
    slot.WellTyped :=
  (h.slotsAt holder).find? (find?_of_resolve hr)

theorem WellTyped.push (h : s.WellTyped) (parent : Option ScopeId) : (s.push parent).WellTyped := by
  rw [wellTyped_iff_frame?] at h ⊢
  intro scope frame hframe
  rw [frame?_push] at hframe
  split at hframe
  · cases hframe
    exact .empty
  · exact h scope frame hframe

theorem WellTyped.release (h : s.WellTyped) (scope : ScopeId) : (s.release scope).WellTyped := by
  rw [wellTyped_iff_frame?] at h ⊢
  intro other frame hframe
  rw [frame?_release] at hframe
  split at hframe
  · exact h other frame hframe
  · cases hframe

theorem WellTyped.put (h : s.WellTyped) (hslot : slot.WellTyped) (scope : ScopeId)
    (name : String) : (s.put scope name slot).WellTyped := by
  rw [wellTyped_iff_frame?] at h ⊢
  intro other frame hframe
  rw [frame?_put] at hframe
  split at hframe
  · obtain ⟨old, hold, rfl⟩ := Option.map_eq_some_iff.1 hframe
    exact (h other old hold).insert hslot name
  · exact h other frame hframe

/-- A declaration leaves the new slot without a value. -/
theorem WellTyped.declare (h : s.WellTyped) (scope : ScopeId) (name : String) (ty : Ty) :
    (Update.declare scope name ty s).2.WellTyped := by
  rw [Update.declare]
  split
  · exact h
  · exact h.put (Slot.wellTyped_unassigned ty) scope name

/-- An assignment checks the type before it stores the value. -/
theorem WellTyped.assign (h : s.WellTyped) (scope : ScopeId) (name : String) (value : Value) :
    (Update.assign scope name value s).2.WellTyped := by
  rw [Update.assign]
  split
  · exact h
  · next holder slot _ =>
    split
    · next hty => exact h.put (Slot.wellTyped_assigned (Ty.accepts_iff.1 hty)) holder name
    · exact h

theorem WellTyped.declareAndAssign (h : s.WellTyped) (scope : ScopeId) (name : String)
    (value : Value) : (Update.declareAndAssign scope name value s).2.WellTyped := by
  have hdeclare := h.declare scope name value.ty
  rw [Update.declareAndAssign]
  split
  · next t ht =>
    rw [ht] at hdeclare
    exact hdeclare.assign scope name value
  · next e t ht =>
    rw [ht] at hdeclare
    exact hdeclare

theorem WellTyped.of_result {u : Update} {t : Scopes} (h : (u s).2.WellTyped)
    (ht : u.result s = .ok t) : t.WellTyped := by
  rwa [Update.eq_of_result_eq_ok ht] at h

/-- The value of a variable comes from its slot, and has the type of the slot. -/
theorem WellTyped.valueOf {value : Value} (h : s.WellTyped)
    (hv : s.valueOf scope name = .ok value) :
    ∃ holder slot, s.resolve scope name = some (holder, slot) ∧ slot.assigned = true ∧
      value.ty = slot.ty := by
  obtain ⟨holder, slot, hr, hassigned, rfl⟩ := valueOf_eq_ok_iff.1 hv
  exact ⟨holder, slot, hr, hassigned, (h.resolve hr).2 hassigned⟩

end Scopes

/-! ### Evaluation -/

/-- No step of evaluation stores a value of another type than the slot's. -/
theorem wellTyped_stable : Machine.Stable (Machine.Preserves fun m => m.scopes.WellTyped) where
  declare h hm := (hm.declare _ _ _).of_result h
  assign h hm := (hm.assign _ _ _).of_result h
  readInt _ := id
  put _ _ := id
  inScope parent h hm := (h (hm.push parent)).release _
  inCall _ h := h

/-! ### Reachable arenas -/

/-- The state at the end, of a result or of an error. -/
def Outcome.state? {σ α : Type} : Outcome σ α → Option σ
  | .done _ s | .failed _ s => some s
  | .unfinished => none

theorem Outcome.Leaves.state? {σ α : Type} {P : σ → Prop} {x : Outcome σ α} {s : σ}
    (h : x.Leaves P) (hs : x.state? = some s) : P s := by
  cases x with
  | done _ s' | failed _ s' =>
    cases hs
    exact h
  | unfinished => cases hs

/-- The arenas that scope operations and evaluation lead to from the initial one. The arguments may
be any, and evaluation may start with any methods, active calls and console. Updates may succeed or
fail, and evaluation may end in a result or an error: what they leave is reachable in any case. -/
inductive Scopes.Reachable : Scopes → Prop
  | initial : Reachable .initial
  | push {s : Scopes} (h : Reachable s) (parent : Option ScopeId) : Reachable (s.push parent)
  | release {s : Scopes} (h : Reachable s) (scope : ScopeId) : Reachable (s.release scope)
  | declare {s : Scopes} (h : Reachable s) (scope : ScopeId) (name : String) (ty : Ty) :
      Reachable (Update.declare scope name ty s).2
  | assign {s : Scopes} (h : Reachable s) (scope : ScopeId) (name : String) (value : Value) :
      Reachable (Update.assign scope name value s).2
  | declareAndAssign {s : Scopes} (h : Reachable s) (scope : ScopeId) (name : String)
      (value : Value) : Reachable (Update.declareAndAssign scope name value s).2
  | execStmt {m m' : Machine} {w : Setting} {n : Nat} {scope : ScopeId} {st : Stmt}
      (h : Reachable m.scopes) (hm : (execStmt w n scope st m).state? = some m') :
      Reachable m'.scopes
  | execAll {m m' : Machine} {w : Setting} {n : Nat} {scope : ScopeId} {body : List Stmt}
      (h : Reachable m.scopes)
      (hm : (execAll (MethodLang.execStmt w n scope) body m).state? = some m') :
      Reachable m'.scopes
  | evalExpr {m m' : Machine} {w : Setting} {n : Nat} {scope : ScopeId} {e : Expr}
      (h : Reachable m.scopes) (hm : (evalExpr w n scope e m).state? = some m') :
      Reachable m'.scopes
  | invoke {m m' : Machine} {w : Setting} {n : Nat} {scope : ScopeId} {name : String}
      {args : List Expr} (h : Reachable m.scopes)
      (hm : (invoke w n scope name args m).state? = some m') : Reachable m'.scopes
  | invokeEntry {m m' : Machine} {w : Setting} {n : Nat} {name : String} (h : Reachable m.scopes)
      (hm : (invokeEntry w n name m).state? = some m') : Reachable m'.scopes

theorem Scopes.Reachable.wellTyped {s : Scopes} (h : s.Reachable) : s.WellTyped := by
  induction h with
  | initial => exact .initial
  | push _ parent ih => exact ih.push parent
  | release _ scope ih => exact ih.release scope
  | declare _ scope name ty ih => exact ih.declare scope name ty
  | assign _ scope name value ih => exact ih.assign scope name value
  | declareAndAssign _ scope name value ih => exact ih.declareAndAssign scope name value
  | @execStmt m m' w n scope st _ hm ih =>
    exact (wellTyped_stable.keeps_execStmt w n scope st m).state? hm ih
  | @execAll m m' w n scope body _ hm ih =>
    exact (wellTyped_stable.keeps_execAll (wellTyped_stable.keeps_execStmt w n scope) body m).state?
      hm ih
  | @evalExpr m m' w n scope e _ hm ih =>
    exact (wellTyped_stable.keeps_evalExpr w n scope e m).state? hm ih
  | @invoke m m' w n scope name args _ hm ih =>
    exact (wellTyped_stable.keeps_invoke w n scope name args m).state? hm ih
  | @invokeEntry m m' w n name _ hm ih =>
    exact (wellTyped_stable.keeps_invokeEntry w n name m).state? hm ih

/-- In every arena that operations and evaluation lead to, an unassigned slot shows the absent value
and an assigned slot holds a value of its declared type. So the absent value of a variable is one
that was stored in a slot of the undefined type, and never what an unassigned slot shows. -/
theorem reachable_slots_hold_their_type {s : Scopes} (h : s.Reachable) :
    (∀ frame ∈ s.frames, ∀ entry ∈ frame.slots.entries,
      (entry.2.assigned = false → entry.2.value = .untyped) ∧
        (entry.2.assigned = true → entry.2.value.ty = entry.2.ty)) ∧
    ∀ (w : Setting) (n : Nat) (scope : ScopeId) (name : String) (m m' : Machine),
      m.scopes = s → evalExpr w n scope (.var name) m = .done .untyped m' →
      ∃ holder slot, s.resolve scope name = some (holder, slot) ∧ slot.assigned = true ∧
        slot.ty = .undefined := by
  constructor
  · intro frame hframe entry hentry
    exact h.wellTyped frame hframe entry hentry
  · rintro w n scope name m m' rfl heval
    cases n with
    | zero => cases heval
    | succ n =>
      obtain ⟨hv, -⟩ := Action.query_eq_done_iff.1 heval
      obtain ⟨holder, slot, hr, hassigned, hty⟩ := h.wellTyped.valueOf hv
      exact ⟨holder, slot, hr, hassigned, hty.symm⟩

/-- A method without a result. -/
def silent : Setting := ⟨[.ofDecl ⟨"nothing", none, [], []⟩], 1⟩

/-- Declare a variable of an unknown type, and assign the absent result of a method to it. -/
def storeNothing : Stmt := .seq [.declare "u" ⟨"void"⟩, .assign "u" (.call "nothing" [])]

/-- What `storeNothing` leaves. -/
def holdingNothing : Machine :=
  ⟨⟨#[⟨none, ⟨[("u", ⟨.undefined, true, .untyped⟩)]⟩⟩]⟩, #[], .ofInput [] none false⟩

theorem holdingNothing_reachable : holdingNothing.scopes.Reachable := by
  have hleft : (execStmt silent 5 Scopes.root storeNothing
      ⟨.initial, #[], .ofInput [] none false⟩).state? = some holdingNothing := by cbv
  exact .execStmt .initial hleft

theorem nothing_is_held_where_it_was_stored :
    holdingNothing.scopes.Reachable ∧
    (∀ frame ∈ holdingNothing.scopes.frames, ∀ entry ∈ frame.slots.entries,
      (entry.2.assigned = false → entry.2.value = .untyped) ∧
        (entry.2.assigned = true → entry.2.value.ty = entry.2.ty)) ∧
    evalExpr silent 1 Scopes.root (.var "u") holdingNothing = .done .untyped holdingNothing ∧
    ∃ holder slot, holdingNothing.scopes.resolve Scopes.root "u" = some (holder, slot) ∧
      slot.assigned = true ∧ slot.ty = .undefined := by
  have heval : evalExpr silent 1 Scopes.root (.var "u") holdingNothing =
      .done .untyped holdingNothing := by cbv
  obtain ⟨hslots, huntyped⟩ := reachable_slots_hold_their_type holdingNothing_reachable
  exact ⟨holdingNothing_reachable, hslots, heval, huntyped _ _ _ _ _ _ rfl heval⟩

end MethodLang
