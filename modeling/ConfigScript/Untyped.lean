import ConfigScript.Number.Integer
import ConfigScript.Number.Literal

set_option autoImplicit false

/-!
# Values without a schema

A value read as whatever it seems to be. A scalar is told by its text: the words for null, true and
false, then the number that a text beginning with a digit spells, and otherwise the text itself.
-/

namespace ConfigScript

/-- A value read without a schema. Maps keep the order in which entries were met. -/
inductive Untyped where
  | null
  | bool (value : Bool)
  | integer (value : Int)
  /-- An integer of 64 bits above those with a sign. -/
  | natural (value : Nat)
  | float (value : Number.Double)
  | text (value : String)
  | list (items : List Untyped)
  | map (entries : List (String × Untyped))
  deriving Inhabited

namespace Untyped

def looksNumeric (text : String) : Bool :=
  match text.toList with
  | '-' :: c :: _ => Number.isDigit c
  | c :: _ => Number.isDigit c
  | [] => false

def number? (text : String) : Option Untyped :=
  match Number.IntegerKind.i64.read? text with
  | some n => some (.integer n)
  | none =>
    match Number.IntegerKind.u64.read? text with
    | some n => some (.natural n.toNat)
    | none => (Number.Double.read? text).map .float

def infer (text : String) : Untyped :=
  if text = "null" then .null
  else if text = "true" then .bool true
  else if text = "false" then .bool false
  else if looksNumeric text then (number? text).getD (.text text)
  else .text text

end Untyped

end ConfigScript
