import MethodLang.Text.Decimal

/-!
# What decimals write

A decimal is an optional sign and one or more digits. Reading one as an integer of 64 bits gives the
integer that it writes, if 64 bits hold it, and nothing else is read at all. The text of an integer
is a decimal that writes it.
-/

namespace MethodLang.Text

/-- One or more of the ten digits. -/
def IsDigits (cs : List Char) : Prop := cs ≠ [] ∧ ∀ c ∈ cs, c.isDigit

/-- An optional sign and digits, and the integer that they write. -/
inductive IsDecimal : List Char → Int → Prop
  | unsigned {digits : List Char} (h : IsDigits digits) :
      IsDecimal digits (Nat.ofDigitChars 10 digits 0)
  | plus {digits : List Char} (h : IsDigits digits) :
      IsDecimal ('+' :: digits) (Nat.ofDigitChars 10 digits 0)
  | minus {digits : List Char} (h : IsDigits digits) :
      IsDecimal ('-' :: digits) (-Nat.ofDigitChars 10 digits 0)

variable {cs : List Char} {n : Int} {i : Int64}

theorem natOfDigits?_eq_some_iff {k : Nat} :
    natOfDigits? cs = some k ↔ IsDigits cs ∧ Nat.ofDigitChars 10 cs 0 = k := by
  have hfold : cs.foldl natOfDigits?.digit 0 = Nat.ofDigitChars 10 cs 0 :=
    Nat.ofDigitChars_eq_foldl.symm
  cases cs with
  | nil => simp [natOfDigits?, IsDigits]
  | cons c cs =>
    rw [natOfDigits?, hfold, IsDigits, ← List.all_eq_true]
    · simp
    · simp

theorem not_isDigits_of_sign {sign : Char} (h : sign.isDigit = false) : ¬IsDigits (sign :: cs) := by
  intro hdigits
  have hsign := hdigits.2 sign List.mem_cons_self
  rw [h] at hsign
  cases hsign

theorem intOfDecimal?_minus (cs : List Char) :
    intOfDecimal? ('-' :: cs) = (natOfDigits? cs).map fun k : Nat => -(k : Int) := by
  rw [intOfDecimal?]
  cases natOfDigits? cs <;> rfl

theorem intOfDecimal?_eq_some_iff : intOfDecimal? cs = some n ↔ IsDecimal cs n := by
  constructor
  · intro h
    by_cases hminus : ∃ digits, cs = '-' :: digits
    · obtain ⟨digits, rfl⟩ := hminus
      rw [intOfDecimal?_minus, Option.map_eq_some_iff] at h
      obtain ⟨k, hk, rfl⟩ := h
      obtain ⟨hdigits, rfl⟩ := natOfDigits?_eq_some_iff.1 hk
      exact .minus hdigits
    · rw [intOfDecimal?.eq_def] at h
      split at h
      · exact absurd ⟨_, rfl⟩ hminus
      · obtain ⟨k, hk, rfl⟩ := Option.map_eq_some_iff.1 h
        obtain ⟨hdigits, rfl⟩ := natOfDigits?_eq_some_iff.1 hk
        exact .plus hdigits
      · obtain ⟨k, hk, rfl⟩ := Option.map_eq_some_iff.1 h
        obtain ⟨hdigits, rfl⟩ := natOfDigits?_eq_some_iff.1 hk
        exact .unsigned hdigits
  · intro h
    cases h with
    | minus hdigits =>
      rw [intOfDecimal?_minus, natOfDigits?_eq_some_iff.2 ⟨hdigits, rfl⟩]
      rfl
    | plus hdigits =>
      rw [intOfDecimal?, natOfDigits?_eq_some_iff.2 ⟨hdigits, rfl⟩]
      rfl
    | unsigned hdigits =>
      rw [intOfDecimal?, natOfDigits?_eq_some_iff.2 ⟨hdigits, rfl⟩]
      · rfl
      -- a sign is no digit
      · rintro digits rfl
        exact not_isDigits_of_sign rfl hdigits
      · rintro digits rfl
        exact not_isDigits_of_sign rfl hdigits

/-- The integers that 64 bits hold. -/
def Holds64 (n : Int) : Prop := Int64.minValue.toInt ≤ n ∧ n ≤ Int64.maxValue.toInt

theorem holds64_iff : Holds64 n ↔ ∃ i : Int64, i.toInt = n := by
  constructor
  · rintro ⟨hmin, hmax⟩
    exact ⟨.ofIntLE n hmin hmax, Int64.toInt_ofIntLE⟩
  · rintro ⟨i, rfl⟩
    exact ⟨i.minValue_le_toInt, i.toInt_le⟩

theorem int64?_eq_some_iff : int64? n = some i ↔ i.toInt = n := by
  rw [int64?, Option.ite_none_right_eq_some]
  constructor
  · rintro ⟨hn, hi⟩
    rw [← Option.some.inj hi, hn]
  · rintro rfl
    rw [Int64.ofInt_toInt]
    exact ⟨rfl, rfl⟩

theorem int64?_eq_none_iff : int64? n = none ↔ ¬Holds64 n := by
  rw [holds64_iff, not_exists, Option.eq_none_iff_forall_ne_some]
  exact forall_congr' fun i => not_congr int64?_eq_some_iff

/-- A decimal is read as the integer that it writes. -/
theorem int64OfDecimal?_eq_some_iff : int64OfDecimal? cs = some i ↔ IsDecimal cs i.toInt := by
  simp only [int64OfDecimal?, Option.bind_eq_some_iff, intOfDecimal?_eq_some_iff,
    int64?_eq_some_iff, exists_eq_right']

/-- What 64 bits do not hold is not read, and neither is what is no decimal. -/
theorem int64OfDecimal?_eq_none_iff :
    int64OfDecimal? cs = none ↔ ∀ n, IsDecimal cs n → ¬Holds64 n := by
  simp only [int64OfDecimal?, Option.bind_eq_none_iff, intOfDecimal?_eq_some_iff,
    int64?_eq_none_iff]

/-! ### Texts of integers -/

theorem isDigits_toDigits (k : Nat) : IsDigits (Nat.toDigits 10 k) :=
  ⟨Nat.toDigits_ne_nil, fun _ hc => Nat.isDigit_of_mem_toDigits (by decide) (by decide) hc⟩

/-- The text of an integer is a decimal that writes it. -/
theorem isDecimal_toString (n : Int) : IsDecimal (toString n).toList n := by
  rw [Int.toString_eq_repr, Int.repr_eq_if]
  split
  · have h := IsDecimal.unsigned (isDigits_toDigits n.toNat)
    rw [Nat.ofDigitChars_ten_toDigits, Int.toNat_of_nonneg ‹_›] at h
    rwa [Nat.repr_eq_ofList_toDigits, String.toList_ofList]
  · have h := IsDecimal.minus (isDigits_toDigits (-n).toNat)
    rw [Nat.ofDigitChars_ten_toDigits, Int.toNat_of_nonneg (by omega), Int.neg_neg] at h
    simpa [Nat.repr_eq_ofList_toDigits] using h

end MethodLang.Text
