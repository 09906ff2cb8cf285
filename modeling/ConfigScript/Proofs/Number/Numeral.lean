import ConfigScript.Proofs.Number.Decimal
import Mathlib.Data.List.Induction

/-!
# Decimal numerals

Every integer has one decimal text that is written without a fraction, an exponent, a needless zero
or a sign for zero. It is the text that `toString` gives.
-/

set_option autoImplicit false

namespace ConfigScript.Number

/-- Digits of a natural number, of which the first is zero only for zero itself. -/
structure IsNumeral (digits : List Char) (n : Nat) : Prop where
  nonempty : digits ≠ []
  areDigits : digits.all isDigit = true
  leads : digits.head? = some '0' → digits = ['0']
  value : ofDigits digits = n

/-- The numeral of the magnitude, behind a minus for negative integers. -/
def IsDecimal (text : String) (n : Int) : Prop :=
  ∃ digits, IsNumeral digits n.natAbs ∧
    text.toList = if n < 0 then '-' :: digits else digits

theorem digitValue_lt {c : Char} (digit : isDigit c = true) : digitValue c < 10 := by
  simp only [isDigit, Bool.and_eq_true, decide_eq_true_eq, Char.le_def] at digit
  have upper : c.toNat ≤ 57 := digit.2
  have zero : '0'.toNat = 48 := rfl
  unfold digitValue
  omega

theorem digitChar_digitValue {c : Char} (digit : isDigit c = true) :
    Nat.digitChar (digitValue c) = c := by
  have small := digitValue_lt digit
  simp only [isDigit, Bool.and_eq_true, decide_eq_true_eq, Char.le_def] at digit
  have lower : 48 ≤ c.toNat := digit.1
  have zero : '0'.toNat = 48 := rfl
  apply Char.toNat_inj.1
  rw [Nat.toNat_digitChar_of_lt_ten small]
  unfold digitValue
  omega

theorem ofDigits_concat (digits : List Char) (c : Char) :
    ofDigits (digits ++ [c]) = 10 * ofDigits digits + digitValue c := by
  rw [ofDigits, List.foldl_append]
  rfl

theorem ofDigits_pos {digits : List Char} (areDigits : digits.all isDigit = true)
    (nonempty : digits ≠ []) (leads : digits.head? ≠ some '0') : 0 < ofDigits digits := by
  induction digits using List.reverseRecOn with
  | nil => exact absurd rfl nonempty
  | append_singleton front c ih =>
      rw [List.all_append, Bool.and_eq_true] at areDigits
      rw [ofDigits_concat]
      cases front with
      | nil =>
          have digit : isDigit c = true := by simpa using areDigits.2
          have notZero : c ≠ '0' := by simpa using leads
          have rebuilt := digitChar_digitValue digit
          rcases Nat.eq_zero_or_pos (digitValue c) with zero | positive
          · rw [zero] at rebuilt
            exact absurd rebuilt.symm notZero
          · exact Nat.add_pos_right _ positive
      | cons first rest =>
          have positive := ih areDigits.1 (List.cons_ne_nil _ _) (by simpa using leads)
          exact Nat.add_pos_left (Nat.mul_pos (by decide) positive) _

/-- A numeral that does not begin with zero is written again from its value. -/
theorem toDigits_ofDigits {digits : List Char} (areDigits : digits.all isDigit = true)
    (nonempty : digits ≠ []) (leads : digits.head? = some '0' → digits = ['0']) :
    Nat.toDigits 10 (ofDigits digits) = digits := by
  induction digits using List.reverseRecOn with
  | nil => exact absurd rfl nonempty
  | append_singleton front c ih =>
      rw [List.all_append, Bool.and_eq_true] at areDigits
      have digit : isDigit c = true := by simpa using areDigits.2
      have single : Nat.toDigits 10 (digitValue c) = [c] := by
        rw [Nat.toDigits_of_lt_base (digitValue_lt digit), digitChar_digitValue digit]
      rw [ofDigits_concat]
      cases front with
      | nil =>
          rw [ofDigits, List.foldl_nil, Nat.mul_zero, Nat.zero_add, single, List.nil_append]
      | cons first rest =>
          have leadsFront : (first :: rest).head? ≠ some '0' := by
            intro zero
            have alone := congrArg List.length (leads zero)
            simp at alone
          have positive := ofDigits_pos areDigits.1 (List.cons_ne_nil _ _) leadsFront
          rw [← Nat.toDigits_append_toDigits (by decide) positive (digitValue_lt digit), single,
            ih areDigits.1 (List.cons_ne_nil _ _) fun zero => absurd zero leadsFront]

theorem head?_toDigits_ne_zero {n : Nat} (positive : 0 < n) :
    (Nat.toDigits 10 n).head? ≠ some '0' := by
  induction n using Nat.strongRecOn with
  | ind n ih =>
      rcases Nat.lt_or_ge n 10 with small | large
      · rw [Nat.toDigits_of_lt_base small, List.head?_cons]
        intro zero
        have code := Nat.toNat_digitChar_of_lt_ten small
        rw [Option.some.inj zero] at code
        have zero : '0'.toNat = 48 := rfl
        omega
      · have front := ih (n / 10) (by omega) (by omega)
        rw [Nat.toDigits_of_base_le (by decide) large]
        cases shape : Nat.toDigits 10 (n / 10) with
        | nil => exact absurd shape Nat.toDigits_ne_nil
        | cons first rest =>
            rw [shape] at front
            exact front

theorem isNumeral_iff {digits : List Char} {n : Nat} :
    IsNumeral digits n ↔ digits = Nat.toDigits 10 n := by
  constructor
  · rintro ⟨nonempty, areDigits, leads, rfl⟩
    exact (toDigits_ofDigits areDigits nonempty leads).symm
  · rintro rfl
    refine ⟨Nat.toDigits_ne_nil, all_isDigit_toDigits n, fun zero => ?_, ofDigits_toDigits n⟩
    rcases Nat.eq_zero_or_pos n with rfl | positive
    · rfl
    · exact absurd zero (head?_toDigits_ne_zero positive)

/-- An integer has one decimal text. -/
theorem isDecimal_iff {text : String} {n : Int} : IsDecimal text n ↔ text = toString n := by
  have spelled : (toString n).toList =
      if n < 0 then '-' :: Nat.toDigits 10 n.natAbs else Nat.toDigits 10 n.natAbs := by
    cases n with
    | ofNat n => exact toList_toString_ofNat n
    | negSucc n =>
        rw [if_pos (Int.negSucc_lt_zero n)]
        exact toList_toString_negSucc n
  simp only [IsDecimal, isNumeral_iff, exists_eq_left, ← spelled, String.toList_inj]

end ConfigScript.Number
