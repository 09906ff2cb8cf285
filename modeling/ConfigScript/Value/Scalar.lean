import ConfigScript.Value.Basic

set_option autoImplicit false

/-!
# Scalars

The values that are written as one text. The text does not tell the kind: a float that is an
integer of 64 bits reads like that integer, and a string reads like whatever it spells.
-/

namespace ConfigScript

inductive Scalar where
  | nil
  | boolean (value : Bool)
  | integer (value : Int64)
  | float (value : Number.Double)
  | text (value : String)
  deriving DecidableEq

namespace Scalar

def render : Scalar → String
  | .nil => "null"
  | .boolean true => "true"
  | .boolean false => "false"
  | .integer n => toString n.toInt
  | .float x => x.text
  | .text s => s

end Scalar

end ConfigScript
