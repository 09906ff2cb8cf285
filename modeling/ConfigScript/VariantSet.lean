import ConfigScript.Error
import ConfigScript.Schema

set_option autoImplicit false

/-!
# Variant sets

The variants that a base type declares, by name and in declared order. Each of them becomes a tag
that scripts can call, so a name may belong to one base only.
-/

namespace ConfigScript

structure VariantSet where
  base : String
  names : List String
  deriving DecidableEq, Repr

namespace VariantSet

def firstRepeated? (seen : List String) : List String → Option String
  | [] => none
  | name :: rest =>
    if name ∈ seen then some name else firstRepeated? (name :: seen) rest

def repeated? (set : VariantSet) : Option String :=
  firstRepeated? [] set.names

def repetition? (set : VariantSet) : Option Error :=
  set.repeated?.map fun name => .duplicateTag name set.base set.base

def conflict? (first second : VariantSet) : Option Error :=
  if first.base = second.base then none
  else
    (first.names.find? (· ∈ second.names)).map fun name =>
      .duplicateTag name first.base second.base

/-- The variants of an enumeration, also through options and wrappers around it. -/
def ofSchema : Schema → Except Error VariantSet
  | .enumeration name variants => .ok ⟨name, variants.map (·.name)⟩
  | .option of => ofSchema of
  | .wrapper _ of => ofSchema of
  | _ => .error .notPolymorphic

end VariantSet

end ConfigScript
