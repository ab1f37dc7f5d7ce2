import MethodLang.Proofs.Scopes.Agree

/-!
# Operations on the arena

What can be done with an arena, each operation made in place: it replies or fails, and leaves an
arena in either case. What a declaration with a value has declared would stay if the assignment
after it failed.

* `Access.perform_eq` says that an access to a name in a live scope is a look-up and then at most
  one binding, and that what the look-up finds decides both the reply and the binding;
* `Access.perform_of_error` says that nothing is bound if it fails;
* `Access.perform_comm` says that accesses to different names do not depend on their order;
* `Operation` and `Scopes.applyAll` put accesses together with opening and releasing, and
  `Scopes.Throughout.preserves` carries a property from single operations to series of them.
-/

namespace MethodLang

/-! ### Accesses -/

/-- What can be done with one name, from one scope. -/
inductive Access
  | isVisible
  | slot
  | lookup
  | declare (ty : Ty)
  | assign (value : Value)
  | declareAndAssign (value : Value)
  deriving DecidableEq

/-- What an access gives if it does not fail. -/
inductive Access.Reply
  | visible (b : Bool)
  | slot (slot : Slot)
  | value (value : Value)
  | updated
  deriving DecidableEq

open Access (Reply)

/-- What an update replies, with the arena that it leaves. -/
def Access.Reply.ofUpdate : Except EvalError Unit × Scopes → Except EvalError Reply × Scopes
  | (.ok (), s) => (.ok .updated, s)
  | (.error e, s) => (.error e, s)

namespace Scopes

/-- Bind a name to a slot in one scope, if there is anything to bind. -/
def write (s : Scopes) (name : String) : Option (ScopeId × Slot) → Scopes
  | none => s
  | some (holder, slot) => s.put holder name slot

/-- The scope in which a look-up finds a name. -/
def holder? (s : Scopes) (scope : ScopeId) (name : String) : Option ScopeId :=
  (s.resolve scope name).map Prod.fst

variable {s : Scopes} {scope id holder : ScopeId} {name other : String}

theorem holder?_eq_some_iff :
    s.holder? scope name = some holder ↔ ∃ slot, s.resolve scope name = some (holder, slot) := by
  simp [holder?]

theorem size_write (s : Scopes) (name : String) (binding : Option (ScopeId × Slot)) :
    (s.write name binding).size = s.size := by
  cases binding with
  | none => rfl
  | some => exact size_put s _ _ _

theorem live_write_iff {binding : Option (ScopeId × Slot)} :
    (s.write name binding).Live id ↔ s.Live id := by
  rw [Live, size_write, Live]

theorem resolve_write_of_ne (h : other ≠ name) (s : Scopes) (binding : Option (ScopeId × Slot))
    (scope : ScopeId) : (s.write name binding).resolve scope other = s.resolve scope other := by
  cases binding with
  | none => rfl
  | some => exact resolve_put_of_ne h s _ _ scope

theorem write_comm (h : other ≠ name) (s : Scopes) (binding binding' : Option (ScopeId × Slot)) :
    (s.write name binding).write other binding' = (s.write other binding').write name binding := by
  cases binding with
  | none => rfl
  | some =>
    cases binding' with
    | none => rfl
    | some => exact put_comm h s _ _ _ _

/-- Two things done in place do not depend on their order: each replies what it would reply
without the other, and together they leave the same arena. -/
structure InAnyOrder (s : Scopes) (x y : Scopes → Except EvalError Reply × Scopes) : Prop where
  first : (x (y s).2).1 = (x s).1
  second : (y (x s).2).1 = (y s).1
  arena : (y (x s).2).2 = (x (y s).2).2

end Scopes

namespace Access

variable {s t : Scopes} {scope scope' : ScopeId} {name other : String}
  {found : Option (ScopeId × Slot)} {e : EvalError}

/-- Make an access in place. -/
def perform (access : Access) (scope : ScopeId) (name : String) (s : Scopes) :
    Except EvalError Reply × Scopes :=
  match access with
  | .isVisible => (.ok (.visible (s.isVisible scope name)), s)
  | .slot => ((s.slot scope name).map .slot, s)
  | .lookup => ((s.lookup scope name).map .value, s)
  | .declare ty => Reply.ofUpdate (Scopes.Update.declare scope name ty s)
  | .assign value => Reply.ofUpdate (Scopes.Update.assign scope name value s)
  | .declareAndAssign value => Reply.ofUpdate (Scopes.Update.declareAndAssign scope name value s)

/-- What an access replies, and what it binds its name to, if a look-up of the name finds this. -/
def respond (access : Access) (scope : ScopeId) (name : String)
    (found : Option (ScopeId × Slot)) : Except EvalError Reply × Option (ScopeId × Slot) :=
  match access, found with
  | .isVisible, found => (.ok (.visible found.isSome), none)
  | .slot, some (_, held) => (.ok (.slot held), none)
  | .lookup, some (_, held) => (.ok (.value held.value), none)
  | .assign value, some (holder, held) =>
    if held.ty.accepts value.ty then
      (.ok .updated, some (holder, { held with assigned := true, value }))
    else (.error (.typeMismatch (.assignment name held.ty value.ty)), none)
  | .declare _, some _ | .declareAndAssign _, some _ => (.error (.redeclaration name), none)
  | .declare ty, none => (.ok .updated, some (scope, ⟨ty, false, .untyped⟩))
  | .declareAndAssign value, none => (.ok .updated, some (scope, ⟨value.ty, true, value⟩))
  | .slot, none | .lookup, none | .assign _, none => (.error (.undeclaredVariable name), none)

/-- In a live scope the second step of a declaration with a value does not fail: what was declared
is of the value's type. The bindings of the two steps make one. -/
theorem perform_declareAndAssign (h : s.Live scope) (name : String) (value : Value) :
    (declareAndAssign value).perform scope name s =
      if s.isVisible scope name then (.error (.redeclaration name), s)
      else (.ok .updated, s.put scope name ⟨value.ty, true, value⟩) := by
  have hupdate := (Scopes.Update.Atomic.declareAndAssign scope name value).eq_of_result_eq_ite
    (Scopes.declareAndAssign_of_lt h name value)
  rw [perform, hupdate]
  split
  · rfl
  · rfl

/-- An access is a look-up, and then at most one binding. -/
theorem perform_eq (access : Access) (h : s.Live scope) (name : String) :
    access.perform scope name s =
      ((access.respond scope name (s.resolve scope name)).1,
        s.write name (access.respond scope name (s.resolve scope name)).2) := by
  cases access with
  | isVisible => rfl
  | slot | lookup =>
    simp only [perform, Scopes.lookup, Scopes.slot]
    cases s.resolve scope name <;> rfl
  | declare ty =>
    rw [perform, Scopes.Update.declare, Scopes.isVisible]
    cases s.resolve scope name <;> rfl
  | assign value =>
    simp only [perform, Scopes.Update.assign]
    cases s.resolve scope name with
    | none => rfl
    | some found =>
      by_cases hty : found.2.ty.accepts value.ty
      · simp [hty, respond, Reply.ofUpdate, Scopes.write]
      · simp [hty, respond, Reply.ofUpdate, Scopes.write]
  | declareAndAssign value =>
    rw [perform_declareAndAssign h, Scopes.isVisible]
    cases s.resolve scope name <;> rfl

theorem respond_of_error {access : Access} (h : (access.respond scope name found).1 = .error e) :
    (access.respond scope name found).2 = none := by
  cases access with
  | isVisible => rfl
  | slot | lookup => cases found <;> rfl
  | declare | declareAndAssign =>
    cases found with
    | none => cases h
    | some => rfl
  | assign value =>
    cases found with
    | none => rfl
    | some found =>
      simp only [respond] at h ⊢
      split at h
      · cases h
      · next hty => rw [if_neg hty]

/-- Nothing is bound by an access that fails. -/
theorem perform_of_error {access : Access} (h : s.Live scope)
    (he : access.perform scope name s = (.error e, t)) : t = s := by
  rw [perform_eq access h, Prod.mk.injEq] at he
  obtain ⟨he, rfl⟩ := he
  rw [respond_of_error he]
  rfl

/-- An access after one to another name finds what it would have found before it. -/
theorem perform_after (access access' : Access) (h : s.Live scope) (h' : s.Live scope')
    (hne : other ≠ name) :
    access'.perform scope' other (access.perform scope name s).2 =
      ((access'.perform scope' other s).1,
        (access.perform scope name s).2.write other
          (access'.respond scope' other (s.resolve scope' other)).2) := by
  rw [perform_eq access h, perform_eq access' (Scopes.live_write_iff.2 h'), perform_eq access' h',
    Scopes.resolve_write_of_ne hne]

theorem perform_comm (access access' : Access) (h : s.Live scope) (h' : s.Live scope')
    (hne : name ≠ other) :
    s.InAnyOrder (access.perform scope name) (access'.perform scope' other) where
  first := by rw [perform_after access' access h' h hne]
  second := by rw [perform_after access access' h h' hne.symm]
  arena := by
    -- each binds what it would have bound alone, so that only the order of the bindings differs
    rw [perform_after access access' h h' hne.symm, perform_after access' access h' h hne,
      perform_eq access h, perform_eq access' h']
    exact Scopes.write_comm hne.symm s _ _

/-- A declaration binds in its scope, and an assignment in the scope where the name is found. -/
theorem holder_of_respond {access : Access} {holder : ScopeId} {slot : Slot}
    (h : (access.respond scope name found).2 = some (holder, slot)) :
    (∃ value, access = .assign value) ∧ found.map Prod.fst = some holder ∨
      ((∃ ty, access = .declare ty) ∨ ∃ value, access = .declareAndAssign value) ∧
        holder = scope := by
  cases access with
  | isVisible => cases h
  | slot | lookup => cases found <;> cases h
  | declare ty =>
    cases found with
    | some => cases h
    | none =>
      cases h
      exact .inr ⟨.inl ⟨ty, rfl⟩, rfl⟩
  | declareAndAssign value =>
    cases found with
    | some => cases h
    | none =>
      cases h
      exact .inr ⟨.inr ⟨value, rfl⟩, rfl⟩
  | assign value =>
    cases found with
    | none => cases h
    | some found =>
      simp only [respond] at h
      split at h
      · cases h
        exact .inl ⟨⟨value, rfl⟩, rfl⟩
      · cases h

end Access

/-! ### Series of operations -/

/-- What can be done with an arena. -/
inductive Operation
  /-- Open a scope, under a parent or detached. -/
  | enter (parent : Option ScopeId)
  | release (scope : ScopeId)
  | access (what : Access) (scope : ScopeId) (name : String)
  deriving DecidableEq

namespace Operation

/-- The arena that an operation leaves, whether it succeeds or fails. -/
def apply : Operation → Scopes → Scopes
  | .enter parent, s => s.push parent
  | .release scope, s => s.release scope
  | .access what scope name, s => (what.perform scope name s).2

/-- An operation as it should be: the scopes that it uses are live, and the one that it releases is
the last. -/
def Proper (s : Scopes) : Operation → Prop
  | .enter parent => ∀ p ∈ parent, s.Live p
  | .release scope => scope.index + 1 = s.size
  | .access _ scope _ => s.Live scope

/-- An operation that keeps to a scope and later ones: it declares in these, assigns names that are
found in these, and releases these. -/
def Within (base : ScopeId) (s : Scopes) : Operation → Prop
  | .enter _ => True
  | .release scope => base.index ≤ scope.index
  | .access (.declare _) scope _ | .access (.declareAndAssign _) scope _ => base.index ≤ scope.index
  | .access (.assign _) scope name => ∀ holder ∈ s.holder? scope name, base.index ≤ holder.index
  | .access .isVisible _ _ | .access .slot _ _ | .access .lookup _ _ => True

instance (s : Scopes) (op : Operation) : Decidable (op.Proper s) :=
  match op with
  | .enter parent => inferInstanceAs (Decidable (∀ p ∈ parent, s.Live p))
  | .release scope => inferInstanceAs (Decidable (scope.index + 1 = s.size))
  | .access _ scope _ => inferInstanceAs (Decidable (s.Live scope))

instance (base : ScopeId) (s : Scopes) (op : Operation) : Decidable (op.Within base s) :=
  match op with
  | .enter _ => inferInstanceAs (Decidable True)
  | .release scope => inferInstanceAs (Decidable (base.index ≤ scope.index))
  | .access (.declare _) scope _ | .access (.declareAndAssign _) scope _ =>
    inferInstanceAs (Decidable (base.index ≤ scope.index))
  | .access (.assign _) scope name =>
    inferInstanceAs (Decidable (∀ holder ∈ s.holder? scope name, base.index ≤ holder.index))
  | .access .isVisible _ _ | .access .slot _ _ | .access .lookup _ _ =>
    inferInstanceAs (Decidable True)

end Operation

namespace Scopes

variable {s : Scopes} {P : Scopes → Operation → Prop} {I : Scopes → Prop} {ops : List Operation}

/-- The arena after a series of operations. -/
def applyAll (s : Scopes) (ops : List Operation) : Scopes := ops.foldl (fun s op => op.apply s) s

/-- Every operation of a series has a property, in the arena in which its turn comes. -/
def Throughout (P : Scopes → Operation → Prop) : Scopes → List Operation → Prop
  | _, [] => True
  | s, op :: ops => P s op ∧ Throughout P (op.apply s) ops

instance decidableThroughout [∀ s op, Decidable (P s op)] : ∀ s ops, Decidable (Throughout P s ops)
  | _, [] => inferInstanceAs (Decidable True)
  | s, op :: ops =>
    have := decidableThroughout (op.apply s) ops
    inferInstanceAs (Decidable (P s op ∧ Throughout P (op.apply s) ops))

/-- What every operation keeps, a series keeps. -/
theorem Throughout.preserves (hops : s.Throughout P ops)
    (hstep : ∀ s op, I s → P s op → I (op.apply s)) (h : I s) : I (s.applyAll ops) := by
  induction ops generalizing s with
  | nil => exact h
  | cons op ops ih =>
    obtain ⟨hop, hops⟩ := hops
    exact ih hops (hstep s op h hop)

end Scopes

end MethodLang
