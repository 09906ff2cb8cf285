import ConfigScript.Number.Layout
import Mathlib.Algebra.Order.Field.Basic
import Mathlib.Data.Rat.Cast.Order
import Mathlib.Tactic.FieldSimp
import Mathlib.Tactic.Positivity

/-!
# Exact values of binary numbers

The rational number that the fields of a number stand for. A number is written as an integer when
it is cast to one before, which is done for integral numbers of a range that is given by two other
numbers. The greatest integer of 64 bits is no number, so the upper end is the next one, and it is
excluded: the cast then never cuts anything off.
-/

set_option autoImplicit false

namespace ConfigScript.Number

def signed {α : Type} [Neg α] (negative : Bool) (magnitude : α) : α :=
  if negative then -magnitude else magnitude

theorem abs_signed (negative : Bool) (magnitude : ℚ) :
    |signed negative magnitude| = |magnitude| := by
  unfold signed
  split
  · exact abs_neg magnitude
  · rfl

theorem cast_signed (negative : Bool) (magnitude : Int) :
    ((signed negative magnitude : Int) : ℚ) = signed negative (magnitude : ℚ) := by
  cases negative with
  | false => rfl
  | true => exact Int.cast_neg magnitude

/-- The natural number `significand * 2 ^ scale`, if it is one. -/
def dyadic? (significand : Nat) (scale : Int) : Option Nat :=
  if 0 ≤ scale then some (significand * Nat.pow 2 scale.toNat)
  else if significand % Nat.pow 2 (-scale).toNat = 0 then
    some (significand / Nat.pow 2 (-scale).toNat)
  else none

theorem dyadic?_eq_some_iff {significand n : Nat} {scale : Int} :
    dyadic? significand scale = some n ↔ (significand : ℚ) * 2 ^ scale = n := by
  cases scale with
  | ofNat places =>
      have whole : dyadic? significand (Int.ofNat places) = some (significand * 2 ^ places) := rfl
      rw [whole, Option.some.injEq, Int.ofNat_eq_natCast, zpow_natCast]
      exact_mod_cast Iff.rfl
  | negSucc places =>
      have parts : dyadic? significand (Int.negSucc places) =
          if significand % 2 ^ (places + 1) = 0 then some (significand / 2 ^ (places + 1))
          else none := rfl
      have unit : (2 : ℚ) ^ (places + 1) ≠ 0 := pow_ne_zero _ (by norm_num)
      have exact : (significand : ℚ) = n * 2 ^ (places + 1) ↔
          significand = n * 2 ^ (places + 1) := by
        exact_mod_cast Iff.rfl
      rw [parts, zpow_negSucc, mul_inv_eq_iff_eq_mul₀ unit, exact]
      split
      · next divides =>
          rw [Option.some.injEq, Nat.div_eq_iff_eq_mul_left (by positivity)
            (Nat.dvd_of_mod_eq_zero divides)]
      · next remains =>
          refine iff_of_false nofun ?_
          rintro rfl
          exact remains (Nat.mul_mod_left n _)

/-- The magnitude of `significand * 2 ^ scale` without its fraction. -/
def truncated (significand : Nat) (scale : Int) : Nat :=
  if 0 ≤ scale then significand * Nat.pow 2 scale.toNat
  else significand / Nat.pow 2 (-scale).toNat

theorem truncated_of_dyadic? {significand n : Nat} {scale : Int}
    (whole : dyadic? significand scale = some n) : truncated significand scale = n := by
  unfold dyadic? at whole
  unfold truncated
  split at whole
  · next up =>
      rw [if_pos up]
      exact Option.some.inj whole
  · next down =>
      rw [if_neg down]
      split at whole
      · exact Option.some.inj whole
      · cases whole

namespace Reading

/-- What a reading stands for, unless it is infinite or no number. -/
def value? : Reading → Option ℚ
  | .finite negative significand scale => some (signed negative (significand * 2 ^ scale))
  | _ => none

theorem integral?_finite (negative : Bool) (significand : Nat) (scale : Int) :
    (finite negative significand scale).integral? =
      (dyadic? significand scale).map fun n : Nat => signed negative (n : Int) := by
  simp only [integral?, dyadic?]
  split
  · rfl
  · split <;> rfl

theorem integral?_eq_some_iff {reading : Reading} {n : Int} :
    reading.integral? = some n ↔ reading.value? = some (n : ℚ) := by
  cases reading with
  | nan | infinite => exact iff_of_false nofun nofun
  | finite negative significand scale =>
      have nonneg : (0 : ℚ) ≤ significand * 2 ^ scale :=
        mul_nonneg (Nat.cast_nonneg _) (zpow_nonneg (by norm_num) _)
      rw [integral?_finite, value?, Option.map_eq_some_iff, Option.some.injEq]
      constructor
      · rintro ⟨magnitude, whole, rfl⟩
        rw [dyadic?_eq_some_iff.1 whole, cast_signed, Int.cast_natCast]
      · intro same
        have magnitude : (significand : ℚ) * 2 ^ scale = n.natAbs := by
          rw [← abs_of_nonneg nonneg, ← abs_signed negative, same, Nat.cast_natAbs, Int.cast_abs]
        refine ⟨n.natAbs, dyadic?_eq_some_iff.2 magnitude, ?_⟩
        rw [magnitude] at same
        apply Int.cast_injective (α := ℚ)
        rw [cast_signed, ← same, Int.cast_natCast]

end Reading

theorem inSignedRange_iff {n : Int} : inSignedRange n ↔ -2 ^ 63 ≤ n ∧ n < 2 ^ 63 := by
  rw [inSignedRange, Bool.and_eq_true, decide_eq_true_eq, decide_eq_true_eq]
  rfl

namespace Double

def value? (x : Double) : Option ℚ :=
  x.reading.value?

theorem integral?_eq_some_iff {x : Double} {n : Int} :
    x.integral? = some n ↔ x.value? = some (n : ℚ) :=
  Reading.integral?_eq_some_iff

/-- The number nearest to an integer. -/
def ofInt (n : Int) : Double :=
  ⟨UInt64.ofNat (Format.binary64.withSign (n < 0) (Format.binary64.nearest n.natAbs 1))⟩

/-- The cast to an integer of 64 bits. It drops a fraction and stops at the ends of the range, and
what is no number becomes zero. -/
def toInt64 (x : Double) : Int64 :=
  match x.reading with
  | .nan => 0
  | .infinite negative => if negative then Int64.minValue else Int64.maxValue
  | .finite negative significand scale =>
    Int64.ofIntClamp (signed negative (truncated significand scale : Int))

/-- Whether a number is cast before it is written: it is integral, at least the number nearest to
the least integer of 64 bits and less than the number nearest to the greatest. -/
def IsCast (x : Double) : Prop :=
  ∃ value lowest highest, x.value? = some value ∧
    (ofInt Int64.minValue.toInt).value? = some lowest ∧
    (ofInt Int64.maxValue.toInt).value? = some highest ∧
    value.den = 1 ∧ lowest ≤ value ∧ value < highest

variable {x : Double} {n : Int}

/-- The ends of the range are integers. The upper one is beyond the greatest integer of 64 bits. -/
theorem value?_ofInt_ends :
    (ofInt Int64.minValue.toInt).value? = some ((-0x8000000000000000 : Int) : ℚ) ∧
      (ofInt Int64.maxValue.toInt).value? = some ((0x8000000000000000 : Int) : ℚ) :=
  ⟨integral?_eq_some_iff.1 (by decide +kernel), integral?_eq_some_iff.1 (by decide +kernel)⟩

/-- A number is cast exactly when it is an integer of 64 bits. -/
theorem isCast_iff : x.IsCast ↔ ∃ n : Int, x.value? = some (n : ℚ) ∧ inSignedRange n := by
  obtain ⟨least, greatest⟩ := value?_ofInt_ends
  simp only [inSignedRange_iff]
  constructor
  · rintro ⟨value, lowest, highest, known, low, high, whole, above, below⟩
    rw [least] at low
    rw [greatest] at high
    cases low
    cases high
    have integral : (value.num : ℚ) = value := (Rat.den_eq_one_iff value).1 whole
    rw [← integral] at known above below
    exact ⟨value.num, known, Int.cast_le.1 above, Int.cast_lt.1 below⟩
  · rintro ⟨n, known, lower, upper⟩
    exact ⟨n, _, _, known, least, greatest, Rat.den_intCast n, Int.cast_le.2 lower,
      Int.cast_lt.2 upper⟩

/-- The cast of an integer of 64 bits is that integer. -/
theorem toInt_toInt64 (known : x.value? = some (n : ℚ)) (within : inSignedRange n) :
    x.toInt64.toInt = n := by
  have integral := integral?_eq_some_iff.2 known
  obtain ⟨lower, upper⟩ := inSignedRange_iff.1 within
  unfold integral? at integral
  unfold toInt64
  cases shape : x.reading with
  | nan | infinite =>
      rw [shape] at integral
      cases integral
  | finite negative significand scale =>
      rw [shape, Reading.integral?_finite, Option.map_eq_some_iff] at integral
      obtain ⟨magnitude, whole, rfl⟩ := integral
      simp only [truncated_of_dyadic? whole]
      exact Int64.toInt_ofIntClamp lower (Int.le_of_lt_add_one upper)

/-- A number that is cast is written as the integer that the cast gives, and this is the number. -/
theorem IsCast.text_eq (cast : x.IsCast) :
    x.value? = some (x.toInt64.toInt : ℚ) ∧ x.text = toString x.toInt64.toInt := by
  obtain ⟨n, known, within⟩ := isCast_iff.1 cast
  rw [toInt_toInt64 known within]
  refine ⟨known, ?_⟩
  rw [text, integral?_eq_some_iff.2 known]
  exact if_pos within

/-- All other numbers are written in places. -/
theorem text_eq_of_not_isCast (other : ¬ x.IsCast) : x.text = x.render .plain := by
  unfold text
  split
  · next n known =>
      have outside : ¬ inSignedRange n := fun within =>
        other (isCast_iff.2 ⟨n, integral?_eq_some_iff.1 known, within⟩)
      exact if_neg outside
  · rfl

end Double

end ConfigScript.Number
