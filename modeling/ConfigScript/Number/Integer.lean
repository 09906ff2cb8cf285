import ConfigScript.Number.Digits

set_option autoImplicit false

/-!
# Integers of fixed width

The ten kinds of integers that a target may ask for, their ranges, and their decimal texts.
-/

namespace ConfigScript.Number

inductive Width where
  | w8
  | w16
  | w32
  | w64
  | w128
  deriving DecidableEq, Repr

namespace Width

def bits : Width → Nat
  | .w8 => 8
  | .w16 => 16
  | .w32 => 32
  | .w64 => 64
  | .w128 => 128

end Width

structure IntegerKind where
  signed : Bool
  width : Width
  deriving DecidableEq, Repr

namespace IntegerKind

def lowest (kind : IntegerKind) : Int :=
  if kind.signed then -(Nat.pow 2 (kind.width.bits - 1) : Nat) else 0

def highest (kind : IntegerKind) : Int :=
  Nat.pow 2 (if kind.signed then kind.width.bits - 1 else kind.width.bits) - 1

def holds (kind : IntegerKind) (n : Int) : Bool :=
  kind.lowest ≤ n && n ≤ kind.highest

def name (kind : IntegerKind) : String :=
  (if kind.signed then "i" else "u") ++ toString kind.width.bits

def i64 : IntegerKind := ⟨true, .w64⟩

def u64 : IntegerKind := ⟨false, .w64⟩

/-- The integer that a text spells: digits after at most one sign, where kinds without a sign
admit `+` only, and the value within the range. -/
def read? (kind : IntegerKind) (text : String) : Option Int :=
  let value? : Option Int :=
    match text.toList with
    | '-' :: digits =>
      if kind.signed then (natural? digits).map fun n => -(n : Int) else none
    | '+' :: digits => (natural? digits).map Int.ofNat
    | digits => (natural? digits).map Int.ofNat
  value?.filter kind.holds

end IntegerKind

end ConfigScript.Number
