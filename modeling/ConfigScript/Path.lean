import ConfigScript.Path.Location

set_option autoImplicit false

/-!
# Paths

A path names a source and records every event met so far. Extending it leaves the shorter path
as it was, so that each event can be handed out with a path of its own. The number of events is kept
with them and never counted again.
-/

namespace ConfigScript

/-- The events met so far in a source, newest first, and how many they are. -/
structure Path where
  source : String
  newestFirst : List Event
  length : Nat
  length_eq : length = newestFirst.length
  deriving DecidableEq, Repr

namespace Path

def root (source : String) : Path :=
  ⟨source, [], 0, rfl⟩

instance : Inhabited Path :=
  ⟨root ""⟩

def push (path : Path) (event : Event) : Path :=
  ⟨path.source, event :: path.newestFirst, path.length + 1, congrArg (· + 1) path.length_eq⟩

def isEmpty (path : Path) : Bool :=
  path.newestFirst.isEmpty

def last? (path : Path) : Option Event :=
  path.newestFirst.head?

def events (path : Path) : List Event :=
  path.newestFirst.reverse

def location (path : Path) : String :=
  (locate path.events).render

/-- The place that messages name: the source, unless it is empty, and the address. -/
def place (path : Path) : String :=
  if path.source.isEmpty then path.location else path.source ++ ":" ++ path.location

def inspectEvent : Event → String
  | .objectOpen => "ObjectOpen"
  | .objectClose => "ObjectClose"
  | .arrayOpen => "ArrayOpen"
  | .arrayClose => "ArrayClose"
  | .key text => "Key(" ++ Text.quoted text ++ ")"
  | .primitive text => "Primitive(" ++ Text.quoted text ++ ")"
  | .typeTag name => "TypeTag(" ++ Text.quoted name ++ ")"

def inspect (path : Path) : String :=
  "Path \x7b source: " ++ Text.quoted path.source ++ ", events: [" ++
    ", ".intercalate (path.events.map inspectEvent) ++ "] \x7d"

@[simp] theorem events_push (path : Path) (event : Event) :
    (path.push event).events = path.events ++ [event] := by
  simp [events, push]

@[simp] theorem source_push (path : Path) (event : Event) :
    (path.push event).source = path.source := rfl

theorem length_eq_length_events (path : Path) : path.length = path.events.length := by
  simp [length_eq, events]

@[simp] theorem length_push (path : Path) (event : Event) :
    (path.push event).length = path.length + 1 := rfl

end Path

end ConfigScript
