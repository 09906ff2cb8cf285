import ConfigScript.Event
import ConfigScript.Path.Address

set_option autoImplicit false

/-!
# The place that a sequence of events has reached

The containers and tags still open after some events, each with the entry or element being read,
spell an address. The computation does not ask for well-formed events: a key outside an object and
a close without a matching open are passed over.
-/

namespace ConfigScript

inductive Frame where
  | object (key : Option String)
  | array (begun : Nat)
  | tag (name : String)
  deriving DecidableEq, Repr

namespace Frame

def step? : Frame → Option Step
  | .object key => key.map .key
  | .array 0 => none
  | .array (n + 1) => some (.index (n + 1))
  | .tag name => some (.tag name)

def beginValue : List Frame → List Frame
  | .array begun :: outer => .array (begun + 1) :: outer
  | frames => frames

def closeTags : List Frame → List Frame
  | .tag _ :: outer => closeTags outer
  | frames => frames

def advance (frames : List Frame) : Event → List Frame
  | .objectOpen => .object none :: beginValue frames
  | .arrayOpen => .array 0 :: beginValue frames
  | .typeTag name => .tag name :: beginValue frames
  | .primitive _ => closeTags (beginValue frames)
  | .key text =>
    match frames with
    | .object _ :: outer => .object (some text) :: outer
    | _ => frames
  | .objectClose | .arrayClose => closeTags frames.tail

def after (events : List Event) : List Frame :=
  events.foldl advance []

def address (frames : List Frame) : Address :=
  frames.reverse.filterMap step?

end Frame

def locate (events : List Event) : Address :=
  Frame.address (Frame.after events)

end ConfigScript
