set_option autoImplicit false

/-!
# Binary floating-point numbers

A number in an interchange format is a sign, a field for the exponent and a field for the
fraction. Reading the fields gives the exact value `significand * 2 ^ scale`, so that questions
about a number are settled by integer arithmetic. `Format.nearest` goes the other way: it rounds
an exact ratio to the nearest number, a tie to the even significand.
-/

namespace ConfigScript.Number

structure Format where
  fractionBits : Nat
  exponentBits : Nat
  deriving DecidableEq, Repr

namespace Format

def binary64 : Format := ⟨52, 11⟩

def binary32 : Format := ⟨23, 8⟩

/-- The least significand with its leading bit in front of the fraction. -/
def leading (format : Format) : Nat :=
  Nat.pow 2 format.fractionBits

def highestExponent (format : Format) : Nat :=
  Nat.pow 2 format.exponentBits - 1

def lowestScale (format : Format) : Int :=
  2 - (Nat.pow 2 (format.exponentBits - 1) : Nat) - format.fractionBits

end Format

inductive Reading where
  | nan
  | infinite (negative : Bool)
  /-- The number `± significand * 2 ^ scale`. -/
  | finite (negative : Bool) (significand : Nat) (scale : Int)
  deriving DecidableEq, Repr

namespace Format

/-- Reads the fields of a number. Numbers whose exponent field is zero have no leading bit. -/
def read (format : Format) (bits : Nat) : Reading :=
  let fraction := bits % format.leading
  let exponent := bits / format.leading % Nat.pow 2 format.exponentBits
  let negative := bits / format.leading / Nat.pow 2 format.exponentBits % 2 = 1
  if exponent = format.highestExponent then
    if fraction = 0 then .infinite negative else .nan
  else if exponent = 0 then
    .finite negative fraction format.lowestScale
  else
    .finite negative (format.leading + fraction) (format.lowestScale + exponent - 1)

def infinity (format : Format) : Nat :=
  format.highestExponent * format.leading

def quietNaN (format : Format) : Nat :=
  format.infinity + format.leading / 2

def withSign (format : Format) (negative : Bool) (magnitude : Nat) : Nat :=
  if negative then magnitude + Nat.pow 2 format.exponentBits * format.leading else magnitude

end Format

def divideToEven (numerator denominator : Nat) : Nat :=
  let quotient := numerator / denominator
  let twice := 2 * (numerator % denominator)
  if twice < denominator then quotient
  else if twice = denominator then quotient + quotient % 2
  else quotient + 1

def ratioLog2 (numerator denominator : Nat) : Int :=
  let guess : Int := (numerator.log2 : Int) - denominator.log2
  let fits :=
    if 0 ≤ guess then decide (denominator * Nat.pow 2 guess.toNat ≤ numerator)
    else decide (denominator ≤ numerator * Nat.pow 2 (-guess).toNat)
  if fits then guess else guess - 1

namespace Format

/-- The bits of the number nearest to a ratio, without a sign. What rounds past the greatest
number is infinite. -/
def nearest (format : Format) (numerator denominator : Nat) : Nat :=
  if numerator = 0 then 0
  else
    let scale := max format.lowestScale (ratioLog2 numerator denominator - format.fractionBits)
    let significand :=
      if 0 ≤ scale then divideToEven numerator (denominator * Nat.pow 2 scale.toNat)
      else divideToEven (numerator * Nat.pow 2 (-scale).toNat) denominator
    -- A significand without its leading bit occurs at the lowest scale only, and one that is
    -- rounded up to twice the leading bit moves into the next exponent by the addition.
    min format.infinity ((scale - format.lowestScale).toNat * format.leading + significand)

end Format

def Reading.integral? : Reading → Option Int
  | .finite negative significand scale =>
    let signed (magnitude : Nat) : Int := if negative then -(magnitude : Int) else magnitude
    if 0 ≤ scale then some (signed (significand * Nat.pow 2 scale.toNat))
    else
      let unit := Nat.pow 2 (-scale).toNat
      if significand % unit = 0 then some (signed (significand / unit)) else none
  | _ => none

structure Double where
  bits : UInt64
  deriving DecidableEq, Repr, Inhabited

structure Single where
  bits : UInt32
  deriving DecidableEq, Repr, Inhabited

namespace Double

def reading (x : Double) : Reading :=
  Format.binary64.read x.bits.toNat

def integral? (x : Double) : Option Int :=
  x.reading.integral?

def isFinite (x : Double) : Bool :=
  match x.reading with
  | .finite .. => true
  | _ => false

def isNaN (x : Double) : Bool :=
  x.reading == .nan

def negate (x : Double) : Double :=
  ⟨x.bits ^^^ 0x8000000000000000⟩

/-- Every integer up to this magnitude is a number, and the next one is not. -/
def exactLimit : Nat := 0x20000000000000

/-- Whether the number is an integer so large that the digits it was written with may be lost. -/
def isImpreciseInteger (x : Double) : Bool :=
  match x.integral? with
  | some n => exactLimit < n.natAbs
  | none => false

end Double

end ConfigScript.Number
