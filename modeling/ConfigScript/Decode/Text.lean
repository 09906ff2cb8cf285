import ConfigScript.Datum
import ConfigScript.Decode.Cause
import ConfigScript.Schema

set_option autoImplicit false

/-!
# Reading one text

A map key is a text on its own, and so is the text of a primitive event once it has been taken.
Schemas that need more than one text refuse it, after guessing what scalar the text is.
-/

namespace ConfigScript

def Unexpected.ofText (text : String) : Unexpected :=
  match Untyped.infer text with
  | .null => .unit
  | .bool b => .bool b
  | .integer n => .integer n
  | .natural n => .integer n
  | .float x => .float x
  | _ => .text text

def Payload.expected {σ : Type} : Payload σ → String
  | .unit => "unit variant"
  | .value _ => "newtype variant"
  | .tuple _ => "tuple variant"
  | .record _ _ => "struct variant"

/-- The variant that a bare name stands for. It must be one without payload. -/
def readVariantName {σ : Type} (variants : List (Variant σ)) (name : String) : Except Cause Datum :=
  match variants.find? (·.name = name) with
  | none => .error (.unknownVariant name (variants.map (·.name)))
  | some variant =>
    match variant.payload with
    | .unit => .ok (.variant variant.name .unit)
    | payload => .error (.invalidType .unitVariant payload.expected)

namespace Schema

def parsed {α : Type} (text : String) (expected : String) (value? : Option α) : Except Cause α :=
  match value? with
  | some value => .ok value
  | none => .error (.unparsable text expected)

def readText (text : String) : Schema → Except Cause Datum
  | .bool =>
    if text = "true" then .ok (.bool true)
    else if text = "false" then .ok (.bool false)
    else .error (.invalidType (.text text) Schema.bool.expected)
  | .integer kind => (parsed text kind.name (kind.read? text)).map .integer
  | .single => (parsed text "f32" (Number.Single.read? text)).map .single
  | .double => (parsed text "f64" (Number.Double.read? text)).map .double
  | .char =>
    match text.toList with
    | [c] => .ok (.char c)
    | _ => .error (.invalidValue (.text text) Schema.char.expected)
  | .text | .identifier => .ok (.text text)
  | .bytes => .ok (.bytes text.toByteArray)
  | .unit => unitText Schema.unit.expected
  | .ignored => .ok .ignored
  | .untyped => .ok (.untyped (Untyped.infer text))
  | .json => .ok (.json (Untyped.infer text).toJson)
  | .option of => if text = "null" then .ok .none else (readText text of).map .some
  | .namedUnit name => unitText ("unit struct " ++ name)
  | .wrapper _ of => (readText text of).map .wrapped
  | .enumeration _ variants => readVariantName variants text
  | .seq of => .error (.invalidType (.ofText text) (Schema.seq of).expected)
  | .tuple items => .error (.invalidType (.ofText text) (Schema.tuple items).expected)
  | .namedTuple name items =>
    .error (.invalidType (.ofText text) (Schema.namedTuple name items).expected)
  | .map key value => .error (.invalidType (.ofText text) (Schema.map key value).expected)
  | .record name fields closed =>
    .error (.invalidType (.ofText text) (Schema.record name fields closed).expected)
where
  /-- Only the word for null stands for nothing. -/
  unitText (expected : String) : Except Cause Datum :=
    if text = "null" then .ok .unit else .error (.invalidType (.text text) expected)

end Schema

end ConfigScript
