import ConfigScript.Proofs.Decode.Denotation
import ConfigScript.Proofs.Decode.Key
import ConfigScript.Proofs.Number.Exact
import ConfigScript.Proofs.Number.Numeral
import ConfigScript.Proofs.Walker.Strictness

/-!
# Integers survive their text

An integer of 64 bits is presented by its decimal text, be it held as an integer or as a float, and
is read back from it by every kind of integers that it is in.
-/

set_option autoImplicit false

namespace ConfigScript

open Number

/-- A value that is an integer, whatever its kind. The zero with a sign is zero. -/
inductive Value.IsInteger : Value → Int → Prop
  | integer (n : Int64) : IsInteger (.integer n) n.toInt
  | float {x : Double} {n : Int} (known : x.value? = some (n : ℚ)) : IsInteger (.float x) n

variable {value : Value} {n : Int}

theorem Number.Double.text_of_value? {x : Double} (known : x.value? = some (n : ℚ))
    (within : inSignedRange n) : x.text = toString n := by
  rw [Double.text, Double.integral?_eq_some_iff.2 known]
  exact if_pos within

namespace Value.IsInteger

/-- Its scalar is written as the integer. -/
theorem exists_shape (isInteger : value.IsInteger n) (within : inSignedRange n) (heap : Heap)
    {strict : Bool}
    (exact : ∀ x, value = .float x → strict = true → n.natAbs ≤ Double.exactLimit) :
    ∃ leaf, value.shape heap strict = .ok (.scalar leaf) ∧ leaf.render = toString n := by
  cases isInteger with
  | integer n => exact ⟨.integer n, rfl, rfl⟩
  | @float x _ known =>
      refine ⟨.float x, if_neg ?_, Double.text_of_value? known within⟩
      rw [Bool.and_eq_true, Double.isImpreciseInteger, Double.integral?_eq_some_iff.2 known]
      rintro ⟨isStrict, large⟩
      exact absurd (exact x rfl isStrict) (Nat.not_le_of_lt (of_decide_eq_true large))

end Value.IsInteger

theorem Level.step?_of_scalar {heap : Heap} {options : Options} {levels : List Level}
    {leaf : Scalar} (presents : presented? levels = some value)
    (shaped : value.shape heap options.strictIntegers = .ok (.scalar leaf)) :
    ∃ outer, step? heap options levels = some (.ok (.primitive leaf.render, outer)) := by
  obtain ⟨outer, enters⟩ := exists_step?_eq_enter presents
  have entered : enter heap options value outer = .ok (.primitive leaf.render, outer) :=
    enter_eq_ok_iff.2 (.scalar leaf shaped)
  exact ⟨outer, (enters heap options).trans (congrArg some entered)⟩

/-- A text on its own is read as an integer, or refused where it stands. -/
theorem decode_integer {ε : Type} (kind : IntegerKind) (text : String) (place : Path) :
    decode (.integer kind) [(.ok (.primitive text, place) : Item ε)] =
      (Schema.readText text (.integer kind)).mapError (.mismatch place) := by
  cases read : Schema.readText text (.integer kind) with
  | ok datum => exact decode_primitive_eq_ok_iff.2 read
  | error cause =>
      have failed : (Schema.integer kind).read (.ofItems [(.ok (.primitive text, place) : Item ε)]) =
          (.error (.cause cause), ⟨[], none, place⟩) := by
        simp only [Schema.read]
        change Reader.ofExcept (Schema.readText text (.integer kind)) _ = _
        rw [read]
        rfl
      exact decode_of_error failed

theorem readText_toString (kind : IntegerKind) (n : Int) :
    Schema.readText (toString n) (.integer kind) =
      if kind.holds n then .ok (.integer n)
      else .error (.unparsable (toString n) kind.name) := by
  rw [Schema.readText, IntegerKind.read?_toString_eq]
  split <;> rfl

/-- An integer of 64 bits has one text among values, its decimal text, whatever its kind. It is read
back from this text by the kinds of integers that it is in, and refused by the others. No other
float is cast before it is written, so no cast changes one. -/
theorem integer_survives_text {ε : Type} (isInteger : value.IsInteger n) (lower : -2 ^ 63 ≤ n)
    (upper : n < 2 ^ 63) :
    let text := toString n
    let item (place : Path) : Item ε := .ok (.primitive text, place)
    (∀ other, IsDecimal other n ↔ other = text) ∧
    (∀ walker : Walker, Level.presented? walker.stack = some value →
      (∀ x, value = .float x → walker.options.strictIntegers = true →
        n.natAbs ≤ Double.exactLimit) →
      ∃ rest, walker.next? =
        some (.ok (.primitive text, walker.path.push (.primitive text)), rest)) ∧
    (∀ kind place, decode (.integer kind) [item place] =
      if kind.holds n then .ok (.integer n)
      else .error (.mismatch place (.unparsable text kind.name))) ∧
    (∀ place, decode .untyped [item place] = .ok (.untyped (.integer n))) ∧
    ∀ x : Double,
      (x.IsCast ↔ ∃ m : Int, x.value? = some (m : ℚ) ∧ -2 ^ 63 ≤ m ∧ m < 2 ^ 63) ∧
      (x.IsCast → x.value? = some (x.toInt64.toInt : ℚ) ∧ x.text = toString x.toInt64.toInt) ∧
      (¬ x.IsCast → x.text = x.render .plain) := by
  intro text item
  have within : inSignedRange n := inSignedRange_iff.2 ⟨lower, upper⟩
  refine ⟨fun other => isDecimal_iff, fun walker presents exact => ?_, fun kind place => ?_,
    fun place => ?_, fun x => ⟨?_, fun cast => cast.text_eq, Double.text_eq_of_not_isCast⟩⟩
  · obtain ⟨leaf, shaped, written⟩ := isInteger.exists_shape within walker.heap exact
    obtain ⟨outer, stepped⟩ := Level.step?_of_scalar presents shaped
    rw [written] at stepped
    exact ⟨_, Walker.next?_of_ok stepped⟩
  · rw [decode_integer, readText_toString]
    split <;> rfl
  · have holds : IntegerKind.i64.holds n := IntegerKind.holds_i64_iff.2 ⟨lower, upper⟩
    rw [decode_primitive_eq_ok_iff, Schema.readText, Untyped.infer_toString holds]
  · simp only [Double.isCast_iff, inSignedRange_iff]

/-- The least integer of 64 bits, held as a float. -/
def leastFloat : Double :=
  ⟨0xC3E0000000000000⟩

theorem leastFloat_survives_text :
    (Value.float leastFloat).IsInteger (-2 ^ 63) ∧
      let walker := Walker.start .empty {} (.float leastFloat) (.root "")
      let item : Item Invalid := .ok (.primitive "-9223372036854775808", .root "")
      (∃ rest, walker.next? = some (.ok (.primitive "-9223372036854775808",
        walker.path.push (.primitive "-9223372036854775808")), rest)) ∧
      decode (.integer .i64) [item] = .ok (.integer (-2 ^ 63)) ∧
      decode (.integer .u64) [item] =
        .error (.mismatch (.root "") (.unparsable "-9223372036854775808" "u64")) ∧
      decode .untyped [item] = .ok (.untyped (.integer (-2 ^ 63))) := by
  have isInteger : (Value.float leastFloat).IsInteger (-2 ^ 63) :=
    .float (Double.integral?_eq_some_iff.1 (by decide +kernel))
  obtain ⟨-, walks, decodes, inferred, -⟩ :=
    integer_survives_text (ε := Invalid) isInteger (by decide) (by decide)
  refine ⟨isInteger, ?_, (decodes .i64 (.root "")).trans ?_, (decodes .u64 (.root "")).trans ?_,
    inferred (.root "")⟩
  · exact walks (.start .empty {} (.float leastFloat) (.root "")) rfl fun _ _ strict => nomatch strict
  · exact if_pos (by decide)
  · exact if_neg (by decide)

end ConfigScript
