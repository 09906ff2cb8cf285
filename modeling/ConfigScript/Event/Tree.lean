import ConfigScript.Event

set_option autoImplicit false

/-!
# Values as trees of events

The event grammar `V ::= primitive | tag V | { (key V)* } | [ V* ]` is given by its trees. A
sequence of events is well formed when it is the sequence of some tree; `Tree.ofEvents?` finds
that tree by one pass with the containers still open on a stack.
-/

namespace ConfigScript

inductive Tree where
  | primitive (text : String)
  | tagged (name : String) (payload : Tree)
  | object (entries : List (String × Tree))
  | array (items : List Tree)
  deriving Repr, Inhabited

namespace Tree

mutual

def events : Tree → List Event
  | .primitive text => [.primitive text]
  | .tagged name payload => .typeTag name :: payload.events
  | .object entries => .objectOpen :: (entriesEvents entries ++ [.objectClose])
  | .array items => .arrayOpen :: (itemsEvents items ++ [.arrayClose])

def entriesEvents : List (String × Tree) → List Event
  | [] => []
  | (key, value) :: rest => .key key :: (value.events ++ entriesEvents rest)

def itemsEvents : List Tree → List Event
  | [] => []
  | value :: rest => value.events ++ itemsEvents rest

end

end Tree

/-- A sequence of events that presents exactly one value. -/
def WellFormed (events : List Event) : Prop :=
  ∃ tree : Tree, tree.events = events

namespace Tree

/-- A container or tag whose end has not been met. Finished parts are kept newest first. -/
inductive Open where
  | object (entries : List (String × Tree)) (key : Option String)
  | array (items : List Tree)
  | tagged (name : String)
  deriving Repr

inductive Progress where
  | unfinished (stack : List Open)
  | finished (tree : Tree)
  deriving Repr

namespace Progress

/-- Gives a finished value to the innermost open part. A tag is finished by its payload. An
object takes a value only after a key. -/
def complete : List Open → Tree → Option Progress
  | [], tree => some (.finished tree)
  | .tagged name :: stack, tree => complete stack (.tagged name tree)
  | .array items :: stack, tree => some (.unfinished (.array (tree :: items) :: stack))
  | .object entries (some key) :: stack, tree =>
    some (.unfinished (.object ((key, tree) :: entries) none :: stack))
  | .object _ none :: _, _ => none

def admitsValue : List Open → Bool
  | .object _ none :: _ => false
  | _ => true

def step : Progress → Event → Option Progress
  | .finished _, _ => none
  | .unfinished stack, .primitive text => complete stack (.primitive text)
  | .unfinished stack, .typeTag name =>
    if admitsValue stack then some (.unfinished (.tagged name :: stack)) else none
  | .unfinished stack, .objectOpen =>
    if admitsValue stack then some (.unfinished (.object [] none :: stack)) else none
  | .unfinished stack, .arrayOpen =>
    if admitsValue stack then some (.unfinished (.array [] :: stack)) else none
  | .unfinished (.object entries none :: stack), .key text =>
    some (.unfinished (.object entries (some text) :: stack))
  | .unfinished (.object entries none :: stack), .objectClose =>
    complete stack (.object entries.reverse)
  | .unfinished (.array items :: stack), .arrayClose =>
    complete stack (.array items.reverse)
  | .unfinished _, _ => none

end Progress

/-- The tree that a sequence of events presents, if it presents exactly one. -/
def ofEvents? (events : List Event) : Option Tree :=
  match events.foldlM Progress.step (.unfinished []) with
  | some (.finished tree) => some tree
  | _ => none

end Tree

end ConfigScript
