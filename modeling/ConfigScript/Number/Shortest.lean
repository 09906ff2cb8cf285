import ConfigScript.Number.Binary

set_option autoImplicit false

/-!
# Fewest digits

A binary number is written with the fewest decimal digits that read back as that number, and among
decimals with so few digits with the nearest one. Decimals with a given number of places form a
grid. When a grid has a point close enough to the number, one of the two points next to the number
is close enough, so these two are all that is tried.
-/

namespace ConfigScript.Number

structure Decimal where
  digits : Nat
  exponent : Int
  deriving DecidableEq, Repr

inductive Tie where
  | up
  | even
  deriving DecidableEq, Repr

def digitCount (n : Nat) : Nat :=
  (Nat.toDigits 10 n).length

def ratioLog10 (numerator denominator : Nat) : Int :=
  if denominator ≤ numerator then (digitCount (numerator / denominator) : Int) - 1
  else -(digitCount ((denominator + numerator - 1) / numerator - 1) : Int)

/-- A number between its two neighbours, over a common denominator: whatever lies between `low` and
`high` reads back as `value`. The ends belong to the interval when it is closed. -/
structure Interval where
  low : Nat
  value : Nat
  high : Nat
  denominator : Nat
  closed : Bool
  deriving DecidableEq, Repr

namespace Interval

/-- The decimals that read back as `significand * 2 ^ scale`. Below a power of two the numbers are
twice as dense, except among the smallest. -/
def ofParts (format : Format) (significand : Nat) (scale : Int) : Interval :=
  let below :=
    if significand = format.leading ∧ format.lowestScale < scale then 1 else 2
  let quarter := scale - 2
  let factor := if 0 ≤ quarter then Nat.pow 2 quarter.toNat else 1
  { low := (4 * significand - below) * factor
    value := 4 * significand * factor
    high := (4 * significand + 2) * factor
    denominator := if 0 ≤ quarter then 1 else Nat.pow 2 (-quarter).toNat
    closed := significand % 2 = 0 }

def gridPoint? (interval : Interval) (tie : Tie) (exponent : Int) : Option Nat :=
  let unit := if 0 ≤ exponent then interval.denominator * Nat.pow 10 exponent.toNat
    else interval.denominator
  let factor := if 0 ≤ exponent then 1 else Nat.pow 10 (-exponent).toNat
  let value := interval.value * factor
  let under := value / unit
  let within (point : Nat) : Bool :=
    let low := interval.low * factor
    let high := interval.high * factor
    if interval.closed then low ≤ point * unit && point * unit ≤ high
    else low < point * unit && point * unit < high
  let nearer :=
    match compare (2 * (value % unit)) unit with
    | .lt => under
    | .gt => under + 1
    | .eq =>
      match tie with
      | .up => under + 1
      | .even => under + under % 2
  match within under, within (under + 1) with
  | true, true => some nearer
  | true, false => some under
  | false, true => some (under + 1)
  | false, false => none

def search (interval : Interval) (tie : Tie) : Nat → Int → Decimal
  | 0, exponent => ⟨interval.value / interval.denominator, exponent⟩
  | attempts + 1, exponent =>
    match interval.gridPoint? tie exponent with
    | some point => ⟨point, exponent⟩
    | none => search interval tie attempts (exponent - 1)

end Interval

def Decimal.trim : Nat → Decimal → Decimal
  | 0, d => d
  | n + 1, d =>
    if d.digits % 10 = 0 ∧ d.digits ≠ 0 then trim n ⟨d.digits / 10, d.exponent + 1⟩ else d

/-- The nearest of the decimals with the fewest digits that read back as `significand * 2 ^ scale`.
Twenty places are more than any supported format needs. -/
def shortest (format : Format) (tie : Tie) (significand : Nat) (scale : Int) : Decimal :=
  if significand = 0 then ⟨0, 0⟩
  else
    let interval := Interval.ofParts format significand scale
    let highest := ratioLog10 interval.value interval.denominator
    (interval.search tie 20 highest).trim 20

end ConfigScript.Number
