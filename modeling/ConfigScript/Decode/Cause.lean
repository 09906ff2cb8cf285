import ConfigScript.Event
import ConfigScript.Number.Layout
import ConfigScript.Text.Quoted

set_option autoImplicit false

/-!
# Why reading fails

The reasons why events are not a value of a schema, and the words for them. A reason does not know
its place.
-/

namespace ConfigScript

inductive Unexpected where
  | unit
  | bool (value : Bool)
  | integer (value : Int)
  | float (value : Number.Double)
  | text (value : String)
  | unitVariant
  deriving DecidableEq, Repr

namespace Unexpected

def describe : Unexpected → String
  | .unit => "unit value"
  | .bool value => "boolean `" ++ (if value then "true" else "false") ++ "`"
  | .integer value => "integer `" ++ toString value ++ "`"
  | .float value => "floating point `" ++ value.render .pointed ++ "`"
  | .text value => "string " ++ Text.quoted value
  | .unitVariant => "unit variant"

end Unexpected

inductive Cause where
  | endOfInput
  | mismatch (expected : String) (found : Event)
  | trailing (found : Event)
  | unbalancedClose
  | unparsable (text : String) (expected : String)
  | invalidType (found : Unexpected) (expected : String)
  | invalidValue (found : Unexpected) (expected : String)
  | invalidLength (length : Nat) (expected : String)
  | unknownField (name : String) (known : List String)
  | unknownVariant (name : String) (known : List String)
  | missingField (name : String)
  | duplicateField (name : String)
  deriving DecidableEq, Repr

namespace Cause

def ticked (name : String) : String :=
  "`" ++ name ++ "`"

def alternatives (kind : String) : List String → String
  | [] => "there are no " ++ kind
  | [only] => "expected " ++ ticked only
  | [first, second] => "expected " ++ ticked first ++ " or " ++ ticked second
  | names => "expected one of " ++ ", ".intercalate (names.map ticked)

def message : Cause → String
  | .endOfInput => "unexpected end of input"
  | .mismatch expected found => "expected " ++ expected ++ ", found " ++ found.describe
  | .trailing found => "trailing " ++ found.describe
  | .unbalancedClose => "unbalanced close"
  | .unparsable text expected => "invalid value " ++ ticked text ++ ", expected " ++ expected
  | .invalidType found expected =>
    "invalid type: " ++ found.describe ++ ", expected " ++ expected
  | .invalidValue found expected =>
    "invalid value: " ++ found.describe ++ ", expected " ++ expected
  | .invalidLength length expected =>
    "invalid length " ++ toString length ++ ", expected " ++ expected
  | .unknownField name known =>
    "unknown field " ++ ticked name ++ ", " ++ alternatives "fields" known
  | .unknownVariant name known =>
    "unknown variant " ++ ticked name ++ ", " ++ alternatives "variants" known
  | .missingField name => "missing field " ++ ticked name
  | .duplicateField name => "duplicate field " ++ ticked name

end Cause

end ConfigScript
