import Mathlib
import MethodLang.Proofs.Operators

/-!
# Exact results, wrapped to 64 bits

What operators compute is what integers compute, as far as 64 bits hold it. Sums, differences and
products are congruent to the exact ones modulo 2^64, which leaves one 64-bit integer. Quotients and
remainders are exact, but for the one quotient that 64 bits do not hold. Comparisons compare the
integers.

* `apply_eq_error_iff` says when an operator fails, and how;
* `eq_of_modEq` says that a 64-bit integer is known by its residue;
* `divides_exactly` and `divides_wrapped` treat division, with and without the one overflow;
* `operators_are_exact` puts these together.
-/

namespace MethodLang

/-! ### Integers of 64 bits -/

section Words

variable {a b c d : Int64}

/-- Integers of 64 bits that are congruent modulo 2^64 are the same. -/
theorem eq_of_modEq (h : a.toInt ≡ b.toInt [ZMOD 2 ^ 64]) : a = b := by
  have ha := a.le_toInt
  have ha' := a.toInt_lt
  have hb := b.le_toInt
  have hb' := b.toInt_lt
  rw [← Int64.toInt_inj]
  rw [Int.ModEq] at h
  omega

/-- What is left of an exact result in 64 bits is congruent to it. -/
theorem modEq_of_eq_bmod {n : Int} (h : c.toInt = n.bmod (2 ^ 64)) : c.toInt ≡ n [ZMOD 2 ^ 64] := by
  rw [h]
  exact Int.bmod_emod

/-- The quotient and the remainder of division that rounds toward zero. -/
structure Divides (a b q r : Int) : Prop where
  exact : a = q * b + r
  small : |r| < |b|
  sign : r = 0 ∨ r.sign = a.sign

theorem toInt_ne_zero (hb : b ≠ 0) : b.toInt ≠ 0 := fun h => hb (Int64.toInt_inj.1 h)

/-- The one quotient that 64 bits do not hold. -/
def QuotientOverflows (a b : Int64) : Prop := a = Int64.minValue ∧ b = -1

instance (a b : Int64) : Decidable (QuotientOverflows a b) := inferInstanceAs (Decidable (_ ∧ _))

theorem toInt_div_of_not_quotientOverflows (h : ¬QuotientOverflows a b) :
    (a / b).toInt = a.toInt.tdiv b.toInt := by
  by_cases ha : a = Int64.minValue
  · exact Int64.toInt_div_of_ne_right a b fun hb => h ⟨ha, hb⟩
  · exact Int64.toInt_div_of_ne_left a b ha

theorem sign_tmod (m k : Int) : m.tmod k = 0 ∨ (m.tmod k).sign = m.sign := by
  by_cases hk : k ∣ m
  · exact .inl (Int.tmod_eq_zero_of_dvd hk)
  · right
    rw [Int.sign_tmod, if_neg hk]

theorem divides_exactly (hb : b ≠ 0) (h : ¬QuotientOverflows a b) :
    Divides a.toInt b.toInt (a / b).toInt (a % b).toInt where
  exact := by rw [toInt_div_of_not_quotientOverflows h, Int64.toInt_mod, Int.tdiv_mul_add_tmod]
  small := by
    rw [Int64.toInt_mod, Int.abs_eq_natAbs, Int.abs_eq_natAbs, Int.natAbs_tmod]
    exact_mod_cast Nat.mod_lt _ (Int.natAbs_pos.2 (toInt_ne_zero hb))
  sign := by
    rw [Int64.toInt_mod]
    exact sign_tmod _ _

theorem divides_wrapped (h : QuotientOverflows a b) : a / b = Int64.minValue ∧ a % b = 0 := by
  obtain ⟨rfl, rfl⟩ := h
  exact ⟨rfl, rfl⟩

/-- Quotient times divisor and the remainder make up the dividend, in 64 bits too. -/
theorem div_mul_add_mod (a b : Int64) (hb : b ≠ 0) : a / b * b + a % b = a := by
  by_cases h : QuotientOverflows a b
  · obtain ⟨rfl, rfl⟩ := h
    rfl
  · have hmul : (a / b * b).toInt ≡ (a / b).toInt * b.toInt [ZMOD 2 ^ 64] :=
      modEq_of_eq_bmod (Int64.toInt_mul _ _)
    apply eq_of_modEq
    calc (a / b * b + a % b).toInt
      _ ≡ (a / b * b).toInt + (a % b).toInt [ZMOD 2 ^ 64] := modEq_of_eq_bmod (Int64.toInt_add _ _)
      _ ≡ (a / b).toInt * b.toInt + (a % b).toInt [ZMOD 2 ^ 64] := hmul.add_right _
      _ = a.toInt := (divides_exactly hb h).exact.symm

end Words

/-! ### Operators -/

namespace BinOp

variable {op : BinOp} {l r : Value} {e : EvalError}

/-- An operator that divides, an integer, and zero. -/
structure DividesByZero (op : BinOp) (l r : Value) : Prop where
  op : op = .div ∨ op = .mod
  lhs : ∃ a, l = .int a
  rhs : r = .int 0

theorem DividesByZero.apply_eq (h : DividesByZero op l r) :
    op.apply l r = .error (.divisionByZero op) := by
  obtain ⟨rfl | rfl, ⟨a, rfl⟩, rfl⟩ := h
  · rfl
  · rfl

theorem dividesByZero_of_accepts (haccepts : op.opClass.accepts l.ty r.ty)
    (h : op.apply l r = .error e) : DividesByZero op l r := by
  cases op with
  | div | mod =>
    simp only [opClass, OpClass.accepts, Bool.and_eq_true, beq_iff_eq] at haccepts
    obtain ⟨a, rfl⟩ := Value.exists_int_of_ty haccepts.1
    obtain ⟨b, rfl⟩ := Value.exists_int_of_ty haccepts.2
    refine ⟨by simp, ⟨a, rfl⟩, ?_⟩
    by_cases hb : b = 0
    · rw [hb]
    · simp [apply, hb] at h
  | add | sub | mul | lt | gt | le | ge =>
    simp only [opClass, OpClass.accepts, Bool.and_eq_true, beq_iff_eq] at haccepts
    obtain ⟨a, rfl⟩ := Value.exists_int_of_ty haccepts.1
    obtain ⟨b, rfl⟩ := Value.exists_int_of_ty haccepts.2
    cases h
  | and | or =>
    simp only [opClass, OpClass.accepts, Bool.and_eq_true, beq_iff_eq] at haccepts
    obtain ⟨a, rfl⟩ := Value.exists_bool_of_ty haccepts.1
    obtain ⟨b, rfl⟩ := Value.exists_bool_of_ty haccepts.2
    cases h
  | eq | ne =>
    simp only [opClass, OpClass.accepts, beq_iff_eq] at haccepts
    simp [apply, haccepts] at h

/-- An operator fails on operands that its class does not accept and on a zero divisor, and in no
other case. -/
theorem apply_eq_error_iff :
    op.apply l r = .error e ↔
      (¬op.opClass.accepts l.ty r.ty ∧ e = .typeMismatch (.operands op l.ty r.ty)) ∨
        (DividesByZero op l r ∧ e = .divisionByZero op) := by
  constructor
  · intro h
    by_cases haccepts : op.opClass.accepts l.ty r.ty
    · have hzero := dividesByZero_of_accepts haccepts h
      rw [hzero.apply_eq] at h
      cases h
      exact .inr ⟨hzero, rfl⟩
    · rw [apply_of_not_accepts haccepts] at h
      cases h
      exact .inl ⟨haccepts, rfl⟩
  · rintro (⟨haccepts, rfl⟩ | ⟨hzero, rfl⟩)
    · exact apply_of_not_accepts haccepts
    · exact hzero.apply_eq

/-- On integers, an operator gives the only 64-bit integer that is congruent modulo 2^64 to the
exact result. -/
def Wraps (op : BinOp) (exact : Int → Int → Int) : Prop :=
  ∀ a b : Int64, ∃ c : Int64, op.apply (.int a) (.int b) = .ok (.int c) ∧
    ∀ d : Int64, d.toInt ≡ exact a.toInt b.toInt [ZMOD 2 ^ 64] ↔ d = c

theorem Wraps.of_bmod {exact : Int → Int → Int} {f : Int64 → Int64 → Int64}
    (happly : ∀ a b, op.apply (.int a) (.int b) = .ok (.int (f a b)))
    (hexact : ∀ a b, (f a b).toInt = (exact a.toInt b.toInt).bmod (2 ^ 64)) : op.Wraps exact := by
  intro a b
  have hmod := modEq_of_eq_bmod (hexact a b)
  refine ⟨f a b, happly a b, fun d => ⟨fun hd => ?_, ?_⟩⟩
  · exact eq_of_modEq (hd.trans hmod.symm)
  · rintro rfl
    exact hmod

/-- One operator gives false where another gives true, and true where it gives false. -/
def Negates (op op' : BinOp) (l r : Value) : Prop :=
  ∃ t, op'.apply l r = .ok (.bool t) ∧ op.apply l r = .ok (.bool !t)

theorem apply_div (a : Int64) {b : Int64} (hb : b ≠ 0) :
    div.apply (.int a) (.int b) = .ok (.int (a / b)) := if_neg hb

theorem apply_mod (a : Int64) {b : Int64} (hb : b ≠ 0) :
    mod.apply (.int a) (.int b) = .ok (.int (a % b)) := if_neg hb

/-- Values of one type are equal if they are the same. -/
theorem apply_eq (h : l.ty = r.ty) : eq.apply l r = .ok (.bool (decide (l = r))) := if_pos h

theorem apply_ne (h : l.ty = r.ty) : ne.apply l r = .ok (.bool !decide (l = r)) := if_pos h

/-- Comparisons compare the integers. -/
theorem apply_lt (a b : Int64) :
    lt.apply (.int a) (.int b) = .ok (.bool (decide (a.toInt < b.toInt))) := by
  simp only [apply, Int64.lt_iff_toInt_lt]

theorem apply_gt (a b : Int64) :
    gt.apply (.int a) (.int b) = .ok (.bool (decide (b.toInt < a.toInt))) := by
  simp only [apply, Int64.lt_iff_toInt_lt]

theorem apply_le (a b : Int64) :
    le.apply (.int a) (.int b) = .ok (.bool !decide (b.toInt < a.toInt)) := by
  simp only [apply, Int64.le_iff_toInt_le, ← Int.not_lt, decide_not]

theorem apply_ge (a b : Int64) :
    ge.apply (.int a) (.int b) = .ok (.bool !decide (a.toInt < b.toInt)) := by
  simp only [apply, Int64.le_iff_toInt_le, ← Int.not_lt, decide_not]

/-- Of less, equal and greater, one holds. -/
theorem exists_unique_order (a b : Int64) :
    ∃! op : BinOp, (op = .lt ∨ op = .eq ∨ op = .gt) ∧
      op.apply (.int a) (.int b) = .ok (.bool true) := by
  have hlt : lt.apply (.int a) (.int b) = .ok (.bool true) ↔ a.toInt < b.toInt := by
    simp [apply_lt]
  have hgt : gt.apply (.int a) (.int b) = .ok (.bool true) ↔ b.toInt < a.toInt := by
    simp [apply_gt]
  have heq : eq.apply (.int a) (.int b) = .ok (.bool true) ↔ a.toInt = b.toInt := by
    have hty : (Value.int a).ty = (Value.int b).ty := rfl
    simp [apply_eq hty, Int64.toInt_inj]
  rcases lt_trichotomy a.toInt b.toInt with h | h | h
  · refine ⟨.lt, ⟨.inl rfl, hlt.2 h⟩, ?_⟩
    rintro op ⟨rfl | rfl | rfl, hop⟩
    · rfl
    · exact absurd (heq.1 hop) h.ne
    · exact absurd (hgt.1 hop) h.not_gt
  · refine ⟨.eq, ⟨.inr (.inl rfl), heq.2 h⟩, ?_⟩
    rintro op ⟨rfl | rfl | rfl, hop⟩
    · exact absurd (hlt.1 hop) h.not_lt
    · rfl
    · exact absurd (hgt.1 hop) h.not_gt
  · refine ⟨.gt, ⟨.inr (.inr rfl), hgt.2 h⟩, ?_⟩
    rintro op ⟨rfl | rfl | rfl, hop⟩
    · exact absurd (hlt.1 hop) h.not_gt
    · exact absurd (heq.1 hop) h.ne'
    · rfl

/-- Operators fail only on operands outside their class and on zero divisors. Sums, differences and
products wrap. Quotients and remainders are those of division that rounds toward zero, but for the
one that overflows, and by the operators themselves they make up the dividend again. Of less, equal
and greater one is true, and the other comparisons negate these; equality is identity. -/
theorem operators_are_exact :
    (∀ op l r e, apply op l r = .error e ↔
      (¬op.opClass.accepts l.ty r.ty ∧ e = .typeMismatch (.operands op l.ty r.ty)) ∨
        (DividesByZero op l r ∧ e = .divisionByZero op)) ∧
    add.Wraps (· + ·) ∧ sub.Wraps (· - ·) ∧ mul.Wraps (· * ·) ∧
    (∀ a b : Int64, b ≠ 0 → ∃ q r p : Int64,
      div.apply (.int a) (.int b) = .ok (.int q) ∧ mod.apply (.int a) (.int b) = .ok (.int r) ∧
      (¬QuotientOverflows a b → Divides a.toInt b.toInt q.toInt r.toInt) ∧
      (QuotientOverflows a b → q = Int64.minValue ∧ r = 0) ∧
      mul.apply (.int q) (.int b) = .ok (.int p) ∧ add.apply (.int p) (.int r) = .ok (.int a)) ∧
    (∀ a b : Int64,
      lt.apply (.int a) (.int b) = .ok (.bool (decide (a.toInt < b.toInt))) ∧
      (∃! op : BinOp, (op = .lt ∨ op = .eq ∨ op = .gt) ∧
        op.apply (.int a) (.int b) = .ok (.bool true)) ∧
      le.Negates .gt (.int a) (.int b) ∧ ge.Negates .lt (.int a) (.int b)) ∧
    (∀ l r : Value, ne.opClass.accepts l.ty r.ty → ne.Negates .eq l r) ∧
    (∀ l r : Value, l.ty = r.ty → eq.apply l r = .ok (.bool (decide (l = r)))) := by
  refine ⟨fun op l r e => apply_eq_error_iff, .of_bmod (fun _ _ => rfl) Int64.toInt_add,
    .of_bmod (fun _ _ => rfl) Int64.toInt_sub, .of_bmod (fun _ _ => rfl) Int64.toInt_mul,
    ?_, ?_, ?_, fun l r h => apply_eq h⟩
  · intro a b hb
    refine ⟨a / b, a % b, a / b * b, apply_div a hb, apply_mod a hb, divides_exactly hb,
      divides_wrapped, rfl, ?_⟩
    show Except.ok (Value.int (a / b * b + a % b)) = .ok (.int a)
    rw [div_mul_add_mod a b hb]
  · intro a b
    exact ⟨apply_lt a b, exists_unique_order a b, ⟨_, apply_gt a b, apply_le a b⟩,
      ⟨_, apply_lt a b, apply_ge a b⟩⟩
  · intro l r haccepts
    have h : l.ty = r.ty := beq_iff_eq.1 haccepts
    exact ⟨_, apply_eq h, apply_ne h⟩

/-- The quotient that overflows, a negative dividend, and two absent values. -/
theorem operators_are_exact_at_the_edges :
    ((-1 : Int64) ≠ 0 ∧ QuotientOverflows Int64.minValue (-1) ∧
      div.apply (.int Int64.minValue) (.int (-1)) = .ok (.int Int64.minValue) ∧
      mod.apply (.int Int64.minValue) (.int (-1)) = .ok (.int 0)) ∧
    ((2 : Int64) ≠ 0 ∧ ¬QuotientOverflows (-7) 2 ∧
      ∃ q r : Int64, div.apply (.int (-7)) (.int 2) = .ok (.int q) ∧
        mod.apply (.int (-7)) (.int 2) = .ok (.int r) ∧ Divides (-7) 2 q.toInt r.toInt) ∧
    ne.opClass.accepts Value.untyped.ty Value.untyped.ty ∧ ne.Negates .eq .untyped .untyped ∧
    Value.untyped.ty = Value.untyped.ty ∧
      eq.apply .untyped .untyped = .ok (.bool (decide (Value.untyped = Value.untyped))) := by
  obtain ⟨-, -, -, -, hdivide, -, hnegates, hequal⟩ := operators_are_exact
  have hedge : QuotientOverflows Int64.minValue (-1) := ⟨rfl, rfl⟩
  have hplain : ¬QuotientOverflows (-7) 2 := by decide
  obtain ⟨q, r, -, hq, hr, -, hoverflow, -⟩ := hdivide Int64.minValue (-1) (by decide)
  obtain ⟨rfl, rfl⟩ := hoverflow hedge
  obtain ⟨q', r', -, hq', hr', hexact, -⟩ := hdivide (-7) 2 (by decide)
  exact ⟨⟨by decide, hedge, hq, hr⟩, ⟨by decide, hplain, q', r', hq', hr', hexact hplain⟩, rfl,
    hnegates .untyped .untyped rfl, rfl, hequal .untyped .untyped rfl⟩

end BinOp

end MethodLang
