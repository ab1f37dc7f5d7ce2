import MethodLang.Scopes.Basic

/-!
# Frames and chains

What each operation does to the frames of an arena, and how a look-up reads them.

* `frame?_push`, `frame?_put` and `frame?_release` describe opening, binding and releasing,
  frame by frame;
* `resolve_eq_findSome?` says that a look-up is a search along the chain of a scope: the scope
  itself, its parent, and so on;
* `valueOf_eq_ok_iff` says when a variable has a value;
* `declare_eq_ok_iff`, `assign_eq_ok_iff` and `declareAndAssign_eq_ok_iff` say when an update
  succeeds and what it then binds;
* `Update.Atomic.declare`, `Update.Atomic.assign` and `Update.Atomic.declareAndAssign` say that an
  update that fails leaves the arena as it was.
-/

namespace MethodLang.Scopes

/-! ### Frames -/

@[simp] theorem size_initial : initial.size = 1 := rfl

@[simp] theorem size_push (s : Scopes) (parent : Option ScopeId) :
    (s.push parent).size = s.size + 1 := by
  simp [size, push]

@[simp] theorem size_put (s : Scopes) (scope : ScopeId) (name : String) (slot : Slot) :
    (s.put scope name slot).size = s.size := by
  simp [size, put]

@[simp] theorem size_release (s : Scopes) (scope : ScopeId) :
    (s.release scope).size = min (max scope.index 1) s.size := by
  simp [size, release]

theorem frame?_eq_none_iff {s : Scopes} {scope : ScopeId} :
    s.frame? scope = none ↔ s.size ≤ scope.index := by
  simp [frame?, size]

theorem frame?_push (s : Scopes) (parent : Option ScopeId) (scope : ScopeId) :
    (s.push parent).frame? scope =
      if scope = s.next then some ⟨parent, .empty⟩ else s.frame? scope := by
  simp [frame?, push, next, size, Array.getElem?_push, ScopeId.ext_iff]

theorem frame?_put (s : Scopes) (holder : ScopeId) (name : String) (slot : Slot)
    (scope : ScopeId) :
    (s.put holder name slot).frame? scope =
      if scope = holder then
        (s.frame? scope).map fun f => { f with slots := f.slots.insert name slot }
      else s.frame? scope := by
  simp [frame?, put, Array.getElem?_modify, ScopeId.ext_iff, eq_comm]

theorem frame?_release (s : Scopes) (released scope : ScopeId) :
    (s.release released).frame? scope =
      if scope.index < max released.index 1 then s.frame? scope else none := by
  simp only [frame?, release, Array.shrink_eq_take, Array.take_eq_extract,
    Array.getElem?_extract, Nat.sub_zero, Nat.zero_add]
  by_cases h : scope.index < max released.index 1
  · rw [if_pos h]
    split
    · rfl
    · exact (Array.getElem?_eq_none (by omega)).symm
  · rw [if_neg h, if_neg (by omega)]

theorem ext_frame {s t : Scopes} (h : ∀ scope, s.frame? scope = t.frame? scope) : s = t := by
  obtain ⟨f⟩ := s
  obtain ⟨g⟩ := t
  congr 1
  exact Array.ext_getElem? fun i => h ⟨i⟩

/-! ### Chains -/

/-- The scopes that a look-up may meet: a scope, its parent, and so on. -/
def chain (s : Scopes) (scope : ScopeId) : List ScopeId :=
  match s.frame? scope with
  | none => []
  | some frame =>
    match frame.parent with
    | none => [scope]
    | some parent => if parent.index < scope.index then scope :: s.chain parent else [scope]
termination_by scope.index

/-- The declaration of a name in a scope itself. -/
def own? (s : Scopes) (name : String) (scope : ScopeId) : Option (ScopeId × Slot) :=
  ((s.frame? scope).bind (·.slots.find? name)).map (scope, ·)

/-- A look-up finds the first declaration on the chain. -/
theorem resolve_eq_findSome? (s : Scopes) (scope : ScopeId) (name : String) :
    s.resolve scope name = (s.chain scope).findSome? (s.own? name) := by
  fun_induction s.chain scope with
  | case1 scope hf => rw [resolve, hf]; rfl
  | case2 scope frame hf hp =>
    rw [resolve, hf]
    cases hx : frame.slots.find? name <;> simp [own?, hf, hx, hp]
  | case3 scope frame hf parent hp hlt ih =>
    rw [resolve, hf]
    cases hx : frame.slots.find? name <;> simp [own?, hf, hx, hp, hlt, ih]
  | case4 scope frame hf parent hp hlt =>
    rw [resolve, hf]
    cases hx : frame.slots.find? name <;> simp [own?, hf, hx, hp, hlt]

theorem valueOf_eq_ok_iff {s : Scopes} {scope : ScopeId} {name : String} {value : Value} :
    s.valueOf scope name = .ok value ↔
      ∃ holder slot, s.resolve scope name = some (holder, slot) ∧ slot.assigned = true ∧
        slot.value = value := by
  rw [valueOf]
  cases s.resolve scope name with
  | none => simp
  | some found =>
    obtain ⟨holder, slot⟩ := found
    constructor
    · intro h
      simp only at h
      split at h
      · next hassigned =>
        cases h
        exact ⟨holder, slot, rfl, hassigned, rfl⟩
      · cases h
    · rintro ⟨_, _, hfound, hassigned, rfl⟩
      cases hfound
      exact if_pos hassigned

/-! ### Bindings -/

theorem resolve_put_self (s : Scopes) {scope : ScopeId} (h : scope.index < s.size)
    (name : String) (slot : Slot) :
    (s.put scope name slot).resolve scope name = some (scope, slot) := by
  have hf : s.frame? scope = some s.frames[scope.index] := Array.getElem?_eq_getElem h
  rw [resolve, frame?_put, if_pos rfl, hf]
  simp [Bindings.find?_insert]

theorem put_put (s : Scopes) (scope : ScopeId) (name : String) (old new : Slot) :
    (s.put scope name old).put scope name new = s.put scope name new := by
  apply ext_frame
  intro t
  simp only [frame?_put]
  split
  · cases s.frame? t <;> simp [Bindings.insert_insert]
  · rfl

/-- There is nothing to bind in where no scope is. -/
theorem put_of_size_le {s : Scopes} {scope : ScopeId} (h : s.size ≤ scope.index) (name : String)
    (slot : Slot) : s.put scope name slot = s := by
  apply ext_frame
  intro t
  rw [frame?_put]
  split
  · next heq => rw [heq, frame?_eq_none_iff.2 h, Option.map_none]
  · rfl

theorem resolve_of_size_le {s : Scopes} {scope : ScopeId} (h : s.size ≤ scope.index)
    (name : String) : s.resolve scope name = none := by
  rw [resolve, frame?_eq_none_iff.2 h]

/-! ### Updates that succeed -/

variable {s t : Scopes} {scope : ScopeId} {name : String} {ty : Ty} {value : Value}

theorem declare_eq (s : Scopes) (scope : ScopeId) (name : String) (ty : Ty) :
    s.declare scope name ty =
      if s.isVisible scope name then .error (.redeclaration name)
      else .ok (s.put scope name ⟨ty, false, .untyped⟩) := by
  rw [declare, Update.result, Update.declare]
  by_cases hvisible : s.isVisible scope name
  · rw [if_pos hvisible, if_pos hvisible]
  · rw [if_neg hvisible, if_neg hvisible]

theorem declare_eq_ok_iff :
    s.declare scope name ty = .ok t ↔
      s.resolve scope name = none ∧ t = s.put scope name ⟨ty, false, .untyped⟩ := by
  rw [declare_eq, isVisible]
  cases s.resolve scope name with
  | none => simp [eq_comm]
  | some found => simp

theorem assign_eq (s : Scopes) (scope : ScopeId) (name : String) (value : Value) :
    s.assign scope name value =
      match s.resolve scope name with
      | none => .error (.undeclaredVariable name)
      | some (holder, slot) =>
        if slot.ty.accepts value.ty then
          .ok (s.put holder name { slot with assigned := true, value })
        else .error (.typeMismatch (.assignment name slot.ty value.ty)) := by
  rw [assign, Update.result, Update.assign]
  cases s.resolve scope name with
  | none => rfl
  | some found =>
    by_cases hty : found.2.ty.accepts value.ty
    · simp only [hty, if_true]
    · simp only [hty, Bool.false_eq_true, if_false]

theorem assign_eq_ok_iff :
    s.assign scope name value = .ok t ↔
      ∃ holder slot, s.resolve scope name = some (holder, slot) ∧ slot.ty = value.ty ∧
        t = s.put holder name { slot with assigned := true, value } := by
  rw [assign_eq]
  cases hr : s.resolve scope name with
  | none => simp
  | some found =>
    obtain ⟨holder, slot⟩ := found
    by_cases hty : slot.ty = value.ty
    · simp only [Ty.accepts_iff, hty, if_true, Except.ok.injEq]
      constructor
      · rintro rfl
        exact ⟨holder, slot, rfl, hty, by rw [hty]⟩
      · rintro ⟨_, _, hfound, -, rfl⟩
        cases hfound
        rw [hty]
    · simp [hty]

/-- A declaration with a value is a declaration and then an assignment. -/
theorem declareAndAssign_eq (s : Scopes) (scope : ScopeId) (name : String) (value : Value) :
    s.declareAndAssign scope name value =
      (s.declare scope name value.ty).bind (·.assign scope name value) := by
  rw [declareAndAssign, declare, Update.result, Update.result, Update.declareAndAssign]
  rcases Update.declare scope name value.ty s with ⟨e | _, t⟩
  · rfl
  · rfl

/-- In a live scope, the assignment does not fail after the declaration. -/
theorem declareAndAssign_of_lt (h : scope.index < s.size) (name : String) (value : Value) :
    s.declareAndAssign scope name value =
      if s.isVisible scope name then .error (.redeclaration name)
      else .ok (s.put scope name ⟨value.ty, true, value⟩) := by
  rw [declareAndAssign_eq, declare_eq]
  split
  · rfl
  · simp [Except.bind, assign_eq, resolve_put_self s h, put_put]

theorem declareAndAssign_eq_ok_iff :
    s.declareAndAssign scope name value = .ok t ↔
      scope.index < s.size ∧ s.resolve scope name = none ∧
        t = s.put scope name ⟨value.ty, true, value⟩ := by
  by_cases h : scope.index < s.size
  · rw [declareAndAssign_of_lt h, isVisible]
    cases s.resolve scope name with
    | none => simp [h, eq_comm]
    | some found => simp
  · have hle := Nat.le_of_not_lt h
    simp [declareAndAssign_eq, declare_eq, isVisible, resolve_of_size_le hle, put_of_size_le hle,
      Except.bind, assign_eq, h]

/-! ### Updates that fail -/

namespace Update

/-- The update leaves the arena as it was if it fails. -/
def Atomic (u : Update) : Prop := ∀ ⦃s e t⦄, u s = (.error e, t) → t = s

theorem eq_of_result_eq_ok {u : Update} (h : u.result s = .ok t) : u s = (.ok (), t) := by
  rw [result] at h
  split at h
  · next heq =>
    cases h
    exact heq
  · cases h

theorem Atomic.eq_of_result_eq_error {u : Update} {e : EvalError} (hu : u.Atomic)
    (h : u.result s = .error e) : u s = (.error e, s) := by
  rw [result] at h
  split at h
  · cases h
  · next heq =>
    cases h
    rw [heq, hu heq]

/-- An atomic update that fails under some condition, and otherwise succeeds. -/
theorem Atomic.eq_of_result_eq_ite {u : Update} {e : EvalError} {c : Prop} [Decidable c]
    (hu : u.Atomic) (h : u.result s = if c then .error e else .ok t) :
    u s = if c then (.error e, s) else (.ok (), t) := by
  split at h
  · next hc => rw [if_pos hc, hu.eq_of_result_eq_error h]
  · next hc => rw [if_neg hc, eq_of_result_eq_ok h]

theorem Atomic.declare (scope : ScopeId) (name : String) (ty : Ty) :
    (Update.declare scope name ty).Atomic := by
  intro s e t h
  rw [Update.declare] at h
  split at h
  · cases h
    rfl
  · cases h

theorem Atomic.assign (scope : ScopeId) (name : String) (value : Value) :
    (Update.assign scope name value).Atomic := by
  intro s e t h
  rw [Update.assign] at h
  split at h
  · cases h
    rfl
  · split at h
    · cases h
    · cases h
      rfl

/-- What the first step has declared does not stay if the second fails: in a live scope it does not
fail, and elsewhere nothing is declared. -/
theorem Atomic.declareAndAssign (scope : ScopeId) (name : String) (value : Value) :
    (Update.declareAndAssign scope name value).Atomic := by
  intro s e t h
  rw [Update.declareAndAssign] at h
  cases hdeclare : s.declare scope name value.ty with
  | error e' =>
    rw [(Atomic.declare scope name value.ty).eq_of_result_eq_error hdeclare] at h
    cases h
    rfl
  | ok mid =>
    rw [eq_of_result_eq_ok hdeclare] at h
    change Update.assign scope name value mid = (.error e, t) at h
    have hmid := Atomic.assign scope name value h
    obtain ⟨hnone, rfl⟩ := declare_eq_ok_iff.1 hdeclare
    by_cases hl : scope.index < s.size
    · have hassign : (s.put scope name ⟨value.ty, false, .untyped⟩).assign scope name value =
          .ok ((s.put scope name ⟨value.ty, false, .untyped⟩).put scope name
            ⟨value.ty, true, value⟩) :=
        assign_eq_ok_iff.2 ⟨scope, _, resolve_put_self s hl name _, rfl, rfl⟩
      rw [eq_of_result_eq_ok hassign] at h
      cases h
    · rw [hmid, put_of_size_le (Nat.le_of_not_lt hl)]

end Update

end MethodLang.Scopes
