import ConfigScript.Value.Basic

set_option autoImplicit false

/-!
# Values that cannot be presented

The reasons why a walk over a value stops, and the words for them.
-/

namespace ConfigScript

inductive Fault where
  | unknownKind (kind : Kind)
  | notText
  | tagKind (kind : Kind)
  | tableKey
  | imprecise (x : Number.Double)
  | tooDeep (limit : Nat)
  deriving DecidableEq, Repr

namespace Fault

def message : Fault → String
  | .unknownKind kind => "Unknown data type [" ++ kind.name ++ "]"
  | .notText => "String is not valid UTF-8"
  | .tagKind kind => "`_type` must be a string, found [" ++ kind.name ++ "]"
  | .tableKey => "Unsupported key type [table]"
  | .imprecise x =>
    "Number [" ++ x.render .plain ++ "] is too large to be represented exactly"
  | .tooDeep limit =>
    "Nesting exceeds " ++ toString limit ++ " levels (is a table referencing itself?)"

end Fault

end ConfigScript
