import ConfigScript.Path

set_option autoImplicit false

/-!
# Items

A stream of events is a list of items, since its producer may fail between two events.
-/

namespace ConfigScript

/-- An event with the path that ends at it, or an error of the producer. -/
abbrev Item (ε : Type) := Except ε (Event × Path)

def Item.events {ε : Type} (items : List (Item ε)) : List Event :=
  items.filterMap fun item => item.toOption.map (·.1)

def Path.pushAll (path : Path) (events : List Event) : Path :=
  events.foldl push path

def Path.along (path : Path) : List Event → List (Event × Path)
  | [] => []
  | event :: rest => (event, path.push event) :: (path.push event).along rest

def Path.items {ε : Type} (path : Path) : List Event → List (Item ε)
  | [] => []
  | event :: rest => .ok (event, path.push event) :: Path.items (path.push event) rest

namespace Path

@[simp] theorem pushAll_nil (path : Path) : path.pushAll [] = path := rfl

@[simp] theorem pushAll_cons (path : Path) (event : Event) (rest : List Event) :
    path.pushAll (event :: rest) = (path.push event).pushAll rest := rfl

theorem pushAll_append (path : Path) (first second : List Event) :
    path.pushAll (first ++ second) = (path.pushAll first).pushAll second :=
  List.foldl_append

@[simp] theorem source_pushAll (path : Path) (events : List Event) :
    (path.pushAll events).source = path.source := by
  induction events generalizing path with
  | nil => rfl
  | cons event rest ih => rw [pushAll_cons, ih, source_push]

@[simp] theorem events_pushAll (path : Path) (events : List Event) :
    (path.pushAll events).events = path.events ++ events := by
  induction events generalizing path with
  | nil => rw [pushAll_nil, List.append_nil]
  | cons event rest ih => rw [pushAll_cons, ih, events_push, List.append_assoc, List.singleton_append]

@[simp] theorem length_pushAll (path : Path) (events : List Event) :
    (path.pushAll events).length = path.length + events.length := by
  induction events generalizing path with
  | nil => rfl
  | cons event rest ih =>
      rw [pushAll_cons, ih, length_push, List.length_cons, Nat.add_assoc, Nat.add_comm 1]

@[simp] theorem items_nil {ε : Type} (path : Path) : (path.items [] : List (Item ε)) = [] := rfl

@[simp] theorem items_cons {ε : Type} (path : Path) (event : Event) (rest : List Event) :
    (path.items (event :: rest) : List (Item ε)) =
      .ok (event, path.push event) :: (path.push event).items rest := rfl

@[simp] theorem length_items {ε : Type} (path : Path) (events : List Event) :
    (path.items events : List (Item ε)).length = events.length := by
  induction events generalizing path with
  | nil => rfl
  | cons event rest ih => simp [ih]

theorem items_append {ε : Type} (path : Path) (first second : List Event) :
    (path.items (first ++ second) : List (Item ε)) =
      path.items first ++ (path.pushAll first).items second := by
  induction first generalizing path with
  | nil => rfl
  | cons event rest ih => simp [ih]

theorem along_eq_map (path : Path) (events : List Event) :
    (path.along events).map (·.1) = events := by
  induction events generalizing path with
  | nil => rfl
  | cons event rest ih => simp [along, ih]

theorem items_eq_map_along {ε : Type} (path : Path) (events : List Event) :
    (path.items events : List (Item ε)) = (path.along events).map .ok := by
  induction events generalizing path with
  | nil => rfl
  | cons event rest ih => simp [along, ih]

theorem error_not_mem_items {ε : Type} (path : Path) (events : List Event) (error : ε) :
    .error error ∉ (path.items events : List (Item ε)) := by
  induction events generalizing path with
  | nil => simp
  | cons event rest ih => simp [ih]

end Path

namespace Item

variable {ε : Type}

@[simp] theorem events_append (first second : List (Item ε)) :
    events (first ++ second) = events first ++ events second := by
  simp [events]

@[simp] theorem events_error (error : ε) : events [(.error error : Item ε)] = [] := rfl

@[simp] theorem events_items (path : Path) (given : List Event) :
    events (path.items given : List (Item ε)) = given := by
  induction given generalizing path with
  | nil => rfl
  | cons event rest ih => simpa [events, Except.toOption] using ih (path.push event)

end Item

end ConfigScript
