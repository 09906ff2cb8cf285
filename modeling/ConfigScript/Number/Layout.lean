import ConfigScript.Number.Shortest

set_option autoImplicit false

/-!
# The text of a number

How the digits of a number are laid out: where the point stands, when an exponent is written, and
what stands for the values that have no digits.
-/

namespace ConfigScript.Number

structure Layout where
  tie : Tie
  inPlaces : Int → Bool
  keepsPoint : Bool

namespace Layout

/-- Always in places, without a fraction for integral numbers; a tie goes up. -/
def plain : Layout :=
  { tie := .up, inPlaces := fun _ => true, keepsPoint := false }

def pointed : Layout :=
  { plain with keepsPoint := true }

/-- In places from 0.00001 up to sixteen digits before the point; a tie goes to the even digit. -/
def json : Layout :=
  { tie := .even, inPlaces := fun e => -5 ≤ e && e ≤ 15, keepsPoint := true }

end Layout

namespace Decimal

def text (d : Decimal) : List Char :=
  Nat.toDigits 10 d.digits

def leadingExponent (d : Decimal) : Int :=
  d.exponent + d.text.length - 1

def inPlaces (keepsPoint : Bool) (d : Decimal) : List Char :=
  let fraction : List Char := if keepsPoint then ['.', '0'] else []
  if 0 ≤ d.exponent then
    d.text ++ List.replicate d.exponent.toNat '0' ++ fraction
  else
    let places := (-d.exponent).toNat
    let padded := List.replicate (places + 1 - d.text.length) '0' ++ d.text
    padded.take (padded.length - places) ++ '.' :: padded.drop (padded.length - places)

def withExponent (d : Decimal) : List Char :=
  let mantissa :=
    match d.text with
    | leading :: rest => if rest.isEmpty then [leading] else leading :: '.' :: rest
    | [] => []
  let exponent := d.leadingExponent
  mantissa ++ 'e' :: (if exponent < 0 then '-' else '+') :: Nat.toDigits 10 exponent.natAbs

def render (layout : Layout) (d : Decimal) : List Char :=
  if layout.inPlaces d.leadingExponent then d.inPlaces layout.keepsPoint else d.withExponent

end Decimal

def Double.render (layout : Layout) (x : Double) : String :=
  match x.reading with
  | .nan => "NaN"
  | .infinite negative => if negative then "-inf" else "inf"
  | .finite negative significand scale =>
    let digits := (shortest Format.binary64 layout.tie significand scale).render layout
    String.ofList (if negative then '-' :: digits else digits)

/-- The least and the first excluded integer of 64 bits with a sign. -/
def inSignedRange (n : Int) : Bool :=
  -0x8000000000000000 ≤ n && n < 0x8000000000000000

/-- The text of a number among configuration values: an integer of 64 bits is written as such,
whatever its kind, and any other number in places. -/
def Double.text (x : Double) : String :=
  match x.integral? with
  | some n => if inSignedRange n then toString n else x.render .plain
  | none => x.render .plain

end ConfigScript.Number
