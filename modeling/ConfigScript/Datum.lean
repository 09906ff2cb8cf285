import ConfigScript.Json

set_option autoImplicit false

/-!
# Data

The results of reading a value as a schema.
-/

namespace ConfigScript

inductive Datum where
  | bool (value : Bool)
  | integer (value : Int)
  | single (value : Number.Single)
  | double (value : Number.Double)
  | char (value : Char)
  | text (value : String)
  | bytes (value : ByteArray)
  | unit
  | ignored
  | untyped (value : Untyped)
  | json (value : Json)
  | none
  | some (value : Datum)
  | list (items : List Datum)
  | map (entries : List (Datum × Datum))
  | wrapped (value : Datum)
  | record (fields : List (String × Datum))
  | variant (name : String) (payload : Datum)
  /-- A field that was absent and has a default. -/
  | default
  deriving Inhabited

end ConfigScript
