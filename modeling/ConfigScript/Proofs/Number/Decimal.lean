import ConfigScript.Untyped

/-!
# Decimal texts of integers

An integer within the range of a kind is read back from its decimal text, and a text that is read
without a schema gives the integer that it spells.
-/

set_option autoImplicit false

namespace ConfigScript

namespace Number

theorem ofDigits_toDigits (n : Nat) : ofDigits (Nat.toDigits 10 n) = n := by
  have spelled : Nat.ofDigitChars 10 (Nat.toDigits 10 n) 0 = n := Nat.ofDigitChars_ten_toDigits
  rwa [Nat.ofDigitChars_eq_foldl] at spelled

theorem all_isDigit_toDigits (n : Nat) : (Nat.toDigits 10 n).all isDigit = true := by
  rw [List.all_eq_true]
  intro c member
  exact Nat.isDigit_of_mem_toDigits (by decide) (by decide) member

theorem natural?_toDigits (n : Nat) : natural? (Nat.toDigits 10 n) = some n := by
  rw [natural?, if_pos ⟨Nat.toDigits_ne_nil, all_isDigit_toDigits n⟩, ofDigits_toDigits]

theorem isDigit_of_toDigits_eq_cons {n : Nat} {c : Char} {rest : List Char}
    (shape : Nat.toDigits 10 n = c :: rest) : isDigit c = true := by
  have digits := all_isDigit_toDigits n
  rw [shape, List.all_cons, Bool.and_eq_true] at digits
  exact digits.1

theorem toList_toString_ofNat (n : Nat) : (toString (n : Int)).toList = Nat.toDigits 10 n := by
  change (toString n).toList = _
  rw [Nat.toString_eq_ofList_toDigits, String.toList_ofList]

theorem toList_toString_negSucc (n : Nat) :
    (toString (Int.negSucc n)).toList = '-' :: Nat.toDigits 10 (n + 1) := by
  change ("-" ++ toString (n + 1)).toList = _
  rw [String.toList_append, Nat.toString_eq_ofList_toDigits]
  simp only [String.toList_ofList]
  rfl

namespace IntegerKind

theorem holds_i64_iff {n : Int} :
    i64.holds n ↔ -0x8000000000000000 ≤ n ∧ n < 0x8000000000000000 := by
  have highest : i64.highest = 0x8000000000000000 - 1 := rfl
  rw [holds, Bool.and_eq_true, decide_eq_true_eq, decide_eq_true_eq, highest, Int.le_sub_one_iff]
  rfl

theorem signed_of_holds_negSucc {kind : IntegerKind} {n : Nat}
    (holds : kind.holds (Int.negSucc n) = true) : kind.signed = true := by
  cases sign : kind.signed with
  | true => rfl
  | false =>
      simp only [IntegerKind.holds, lowest, sign, Bool.and_eq_true, decide_eq_true_eq] at holds
      exact absurd holds.1 (by simp)

/-- The decimal text of an integer is read as that integer by the kinds that it is in, and not at
all by the others. -/
theorem read?_toString_eq (kind : IntegerKind) (n : Int) :
    kind.read? (toString n) = if kind.holds n then some n else none := by
  have kept : (some n).filter kind.holds = if kind.holds n then some n else none := rfl
  rw [← kept, read?]
  cases n with
  | ofNat n =>
      rw [Int.ofNat_eq_natCast, toList_toString_ofNat]
      split
      · next shape => cases isDigit_of_toDigits_eq_cons shape
      · next shape => cases isDigit_of_toDigits_eq_cons shape
      · rw [natural?_toDigits]
        rfl
  | negSucc n =>
      rw [toList_toString_negSucc]
      simp only [natural?_toDigits]
      cases sign : kind.signed with
      | true => rfl
      | false =>
          have outside : kind.holds (Int.negSucc n) ≠ true := fun holds => by
            cases sign.symm.trans (signed_of_holds_negSucc holds)
          rw [kept, if_neg outside]
          rfl

/-- An integer of a kind is read back from its decimal text. -/
theorem read?_toString {kind : IntegerKind} {n : Int} (holds : kind.holds n = true) :
    kind.read? (toString n) = some n := by
  rw [read?_toString_eq, if_pos holds]

end IntegerKind

end Number

namespace Untyped

open Number

/-- A decimal text begins with a digit, after a sign at most. -/
theorem looksNumeric_toString (n : Int) : looksNumeric (toString n) = true := by
  unfold looksNumeric
  cases n with
  | ofNat n =>
      rw [Int.ofNat_eq_natCast, toList_toString_ofNat]
      cases shape : Nat.toDigits 10 n with
      | nil => exact absurd shape Nat.toDigits_ne_nil
      | cons c rest =>
          have digit := isDigit_of_toDigits_eq_cons shape
          split
          · next same =>
              cases same
              cases digit
          · next same =>
              cases same
              exact digit
          · next same => cases same
  | negSucc n =>
      rw [toList_toString_negSucc]
      cases shape : Nat.toDigits 10 (n + 1) with
      | nil => exact absurd shape Nat.toDigits_ne_nil
      | cons c rest => exact isDigit_of_toDigits_eq_cons shape

/-- The decimal text of an integer of 64 bits with a sign is taken for that integer. -/
theorem infer_toString {n : Int} (holds : IntegerKind.i64.holds n = true) :
    infer (toString n) = .integer n := by
  have numeric := looksNumeric_toString n
  have isNoWord : ∀ word, looksNumeric word = false → toString n ≠ word := by
    rintro _ none rfl
    cases none.symm.trans numeric
  rw [infer, if_neg (isNoWord "null" rfl), if_neg (isNoWord "true" rfl),
    if_neg (isNoWord "false" rfl), if_pos numeric, number?, IntegerKind.read?_toString holds]
  rfl

end Untyped

end ConfigScript
