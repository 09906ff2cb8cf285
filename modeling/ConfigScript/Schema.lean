import ConfigScript.Number.Integer

set_option autoImplicit false

/-!
# Schemas

The types that a configuration can be read as. Names of records, variants and fields are part of
a schema, since configurations and messages refer to them.
-/

namespace ConfigScript

/-- A named field. A field with a default may be absent. -/
structure Field (σ : Type) where
  name : String
  schema : σ
  hasDefault : Bool

inductive Payload (σ : Type) where
  | unit
  | value (of : σ)
  | tuple (items : List σ)
  /-- Fields by name; a closed record refuses all other keys. -/
  | record (fields : List (Field σ)) (closed : Bool)

structure Variant (σ : Type) where
  name : String
  payload : Payload σ

inductive Schema where
  | bool
  | integer (kind : Number.IntegerKind)
  | single
  | double
  | char
  | text
  | identifier
  | bytes
  | unit
  | ignored
  | untyped
  | json
  | option (of : Schema)
  | seq (of : Schema)
  | tuple (items : List Schema)
  | namedTuple (name : String) (items : List Schema)
  | map (key : Schema) (value : Schema)
  | namedUnit (name : String)
  /-- One value under a name. -/
  | wrapper (name : String) (of : Schema)
  | record (name : String) (fields : List (Field Schema)) (closed : Bool)
  | enumeration (name : String) (variants : List (Variant Schema))

namespace Schema

/-- Whether the schema is an option, so that a missing field means absence. -/
def isOption : Schema → Bool
  | .option _ => true
  | _ => false

def expected : Schema → String
  | .bool => "a boolean"
  | .integer kind => kind.name
  | .single => "f32"
  | .double => "f64"
  | .char => "a character"
  | .text | .identifier => "a string"
  | .bytes => "byte array"
  | .unit => "unit"
  | .ignored => "anything at all"
  | .untyped => "any value"
  | .json => "any valid JSON value"
  | .option _ => "option"
  | .seq _ => "a sequence"
  | .tuple items => "a tuple of size " ++ toString items.length
  | .namedTuple name _ => "tuple struct " ++ name
  | .map _ _ => "a map"
  | .namedUnit name => "unit struct " ++ name
  | .wrapper name _ => "newtype struct " ++ name
  | .record name _ _ => "struct " ++ name
  | .enumeration name _ => "enum " ++ name

def expectedEvent : Schema → String
  | .bool => "a boolean"
  | .integer _ => "an integer"
  | .single | .double => "a number"
  | .char => "a character"
  | .identifier => "an identifier"
  | _ => "a string"

end Schema

def elementCount (n : Nat) : String :=
  toString n ++ if n = 1 then " element" else " elements"

end ConfigScript
