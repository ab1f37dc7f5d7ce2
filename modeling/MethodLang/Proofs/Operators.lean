import MethodLang.Operator

/-!
# What operators accept and give

The class of an operator is all that decides about types: which operands are accepted, and the
type of the result. On accepted operands only a zero divisor fails.
-/

namespace MethodLang

/-- The type of what an operator of a class gives. -/
def OpClass.resultTy : OpClass → Ty
  | arithmetic => .int
  | logical | equality | relational => .bool

namespace Value

variable {v : Value}

theorem exists_int_of_ty (h : v.ty = .int) : ∃ n, v = .int n := by
  cases v with
  | int n => exact ⟨n, rfl⟩
  | untyped | bool => cases h

theorem exists_bool_of_ty (h : v.ty = .bool) : ∃ b, v = .bool b := by
  cases v with
  | bool b => exact ⟨b, rfl⟩
  | untyped | int => cases h

end Value

namespace BinOp

variable {op : BinOp} {l r v : Value}

/-- On accepted operands an operator gives a value of its class, or finds a zero divisor. -/
theorem apply_of_accepts (h : op.opClass.accepts l.ty r.ty) :
    (∃ v, op.apply l r = .ok v ∧ v.ty = op.opClass.resultTy) ∨
      ∃ d, op.apply l r = .error (.divisionByZero d) := by
  cases op with
  | add | sub | mul | lt | gt | le | ge =>
    simp only [opClass, OpClass.accepts, Bool.and_eq_true, beq_iff_eq] at h
    obtain ⟨a, rfl⟩ := Value.exists_int_of_ty h.1
    obtain ⟨b, rfl⟩ := Value.exists_int_of_ty h.2
    exact .inl ⟨_, rfl, rfl⟩
  | div | mod =>
    simp only [opClass, OpClass.accepts, Bool.and_eq_true, beq_iff_eq] at h
    obtain ⟨a, rfl⟩ := Value.exists_int_of_ty h.1
    obtain ⟨b, rfl⟩ := Value.exists_int_of_ty h.2
    by_cases hb : b = 0
    · exact .inr ⟨_, if_pos hb⟩
    · exact .inl ⟨_, if_neg hb, rfl⟩
  | and | or =>
    simp only [opClass, OpClass.accepts, Bool.and_eq_true, beq_iff_eq] at h
    obtain ⟨a, rfl⟩ := Value.exists_bool_of_ty h.1
    obtain ⟨b, rfl⟩ := Value.exists_bool_of_ty h.2
    exact .inl ⟨_, rfl, rfl⟩
  | eq | ne =>
    simp only [opClass, OpClass.accepts, beq_iff_eq] at h
    exact .inl ⟨_, if_pos h, rfl⟩

/-- On other operands there is a mismatch. -/
theorem apply_of_not_accepts (h : ¬op.opClass.accepts l.ty r.ty) :
    op.apply l r = .error (.typeMismatch (.operands op l.ty r.ty)) := by
  cases op with
  | eq | ne =>
    simp only [opClass, OpClass.accepts, beq_iff_eq] at h
    exact if_neg h
  | add | sub | mul | div | mod | lt | gt | le | ge =>
    cases l with
    | untyped | bool => rfl
    | int a =>
      cases r with
      | untyped | bool => rfl
      | int b => exact absurd rfl h
  | and | or =>
    cases l with
    | untyped | int => rfl
    | bool a =>
      cases r with
      | untyped | int => rfl
      | bool b => exact absurd rfl h

/-- A result is of the operator's class, and so were the operands. -/
theorem ty_of_apply_eq_ok (h : op.apply l r = .ok v) :
    op.opClass.accepts l.ty r.ty ∧ v.ty = op.opClass.resultTy := by
  by_cases haccepts : op.opClass.accepts l.ty r.ty
  · refine ⟨haccepts, ?_⟩
    rcases apply_of_accepts haccepts with ⟨u, hu, hty⟩ | ⟨d, hd⟩
    · rw [hu] at h
      cases h
      exact hty
    · rw [hd] at h
      cases h
  · rw [apply_of_not_accepts haccepts] at h
    cases h

end BinOp

end MethodLang
