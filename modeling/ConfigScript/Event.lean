set_option autoImplicit false

/-!
# Structural events

A configuration value is presented as a flat sequence of events. Scalars carry their text only:
whether a text means a number, a truth value or a string is decided by the reader of the events.
-/

namespace ConfigScript

/-- One unit of the presentation of a value. A key is followed by exactly one value, and so is a
type tag. -/
inductive Event where
  | objectOpen
  | objectClose
  | arrayOpen
  | arrayClose
  | key (text : String)
  | primitive (text : String)
  | typeTag (name : String)
  deriving DecidableEq, Repr, Inhabited

namespace Event

/-- The events that begin a value in a sequence, after a key or after a tag. -/
def startsValue : Event → Bool
  | .objectOpen | .arrayOpen | .primitive _ | .typeTag _ => true
  | .objectClose | .arrayClose | .key _ => false

def describe : Event → String
  | .objectOpen => "start of map"
  | .objectClose => "end of map"
  | .arrayOpen => "start of sequence"
  | .arrayClose => "end of sequence"
  | .key text => "key `" ++ text ++ "`"
  | .primitive text => "value `" ++ text ++ "`"
  | .typeTag name => "tag `" ++ name ++ "`"

end Event

end ConfigScript
