import ConfigScript.Number.Binary
import ConfigScript.Number.Digits

set_option autoImplicit false

/-!
# Reading floating-point numbers

The text of a number is an optional sign, digits with at most one point among or beside them, and
an optional exponent. It denotes the number nearest to its exact value. The words for infinity and
for what is no number are read in any case.
-/

namespace ConfigScript.Number

structure Literal where
  digits : Nat
  exponent : Int
  deriving DecidableEq, Repr

namespace Literal

def exponent? : List Char → Option Int
  | [] => some 0
  | c :: rest =>
    if c = 'e' ∨ c = 'E' then
      let (negative, digits) := splitSign rest
      (natural? digits).map fun n => if negative then -(n : Int) else n
    else none

/-- Reads digits, a point and an exponent. At least one digit stands beside the point. -/
def read? (text : List Char) : Option Literal :=
  let whole := text.takeWhile isDigit
  let afterWhole := text.dropWhile isDigit
  let (fraction, rest) :=
    match afterWhole with
    | '.' :: tail => (tail.takeWhile isDigit, tail.dropWhile isDigit)
    | tail => ([], tail)
  if whole.isEmpty && fraction.isEmpty then none
  else
    (exponent? rest).map fun exponent =>
      ⟨ofDigits (whole ++ fraction), exponent - fraction.length⟩

/-- The bits of the nearest number, without a sign. Values beyond any format are settled by the
place of their leading digit, so that no huge power is formed. -/
def nearest (format : Format) (literal : Literal) : Nat :=
  let places : Int := (Nat.toDigits 10 literal.digits).length + literal.exponent
  if literal.digits = 0 ∨ places < -400 then 0
  else if 400 < places then format.infinity
  else if 0 ≤ literal.exponent then
    format.nearest (literal.digits * Nat.pow 10 literal.exponent.toNat) 1
  else
    format.nearest literal.digits (Nat.pow 10 (-literal.exponent).toNat)

end Literal

namespace Format

def read? (format : Format) (text : String) : Option Nat :=
  let (negative, magnitude) := splitSign text.toList
  let word := String.ofList (magnitude.map Char.toLower)
  if word = "inf" ∨ word = "infinity" then some (format.withSign negative format.infinity)
  else if word = "nan" then some (format.withSign negative format.quietNaN)
  else (Literal.read? magnitude).map fun literal =>
    format.withSign negative (literal.nearest format)

end Format

def Double.read? (text : String) : Option Double :=
  (Format.binary64.read? text).map fun bits => ⟨UInt64.ofNat bits⟩

def Single.read? (text : String) : Option Single :=
  (Format.binary32.read? text).map fun bits => ⟨UInt32.ofNat bits⟩

def Single.isNaN (x : Single) : Bool :=
  Format.binary32.read x.bits.toNat == .nan

end ConfigScript.Number
