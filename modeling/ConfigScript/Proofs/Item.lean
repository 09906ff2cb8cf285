import ConfigScript.Item

/-!
# The events among some items

Some items show a sequence of events, each with its path, and the path of the last of them. When
every event extends the path before it, the paths are told by the events.
-/

set_option autoImplicit false

namespace ConfigScript

variable {ε : Type}

/-- The path of the last of some events, or the path before them when there is none. -/
def Path.following (path : Path) (pulled : List (Event × Path)) : Path :=
  pulled.foldl (fun _ event => event.2) path

/-- The events among some items, each with the path that ends at it. -/
def Item.yielded (items : List (Item ε)) : List (Event × Path) :=
  items.filterMap Except.toOption

namespace Path

@[simp] theorem following_nil (path : Path) : path.following [] = path := rfl

@[simp] theorem following_cons (path : Path) (event : Event × Path)
    (rest : List (Event × Path)) : path.following (event :: rest) = event.2.following rest := rfl

theorem following_append (path : Path) (first second : List (Event × Path)) :
    path.following (first ++ second) = (path.following first).following second :=
  List.foldl_append

theorem map_getLast?_following (path : Path) {pulled : List (Event × Path)} (some : pulled ≠ []) :
    pulled.getLast?.map (·.2) = .some (path.following pulled) := by
  obtain ⟨before, last, rfl⟩ := (List.eq_nil_or_concat pulled).resolve_left some
  simp [following_append]

theorem exists_mem_following (path : Path) {pulled : List (Event × Path)} (some : pulled ≠ []) :
    ∃ event, (event, path.following pulled) ∈ pulled := by
  obtain ⟨⟨event, last⟩, found, same⟩ := Option.map_eq_some_iff.1 (path.map_getLast?_following some)
  exact ⟨event, same ▸ List.mem_of_getLast? found⟩

theorem following_along (path : Path) (events : List Event) :
    path.following (path.along events) = path.pushAll events := by
  induction events generalizing path with
  | nil => rfl
  | cons event rest ih => rw [along, following_cons, ih, pushAll_cons]

theorem following_along_cons (other path : Path) (event : Event) (rest : List Event) :
    other.following (path.along (event :: rest)) = path.pushAll (event :: rest) :=
  following_along _ rest

theorem along_append (path : Path) (first second : List Event) :
    path.along (first ++ second) = path.along first ++ (path.pushAll first).along second := by
  induction first generalizing path with
  | nil => rfl
  | cons event rest ih => simp [along, ih]

/-- The first of some events come with their paths if all of them do. -/
theorem eq_along_of_append {path : Path} {front back : List (Event × Path)}
    (same : front ++ back = path.along (front.map (·.1) ++ back.map (·.1))) :
    front = path.along (front.map (·.1)) := by
  rw [along_append] at same
  apply List.append_inj_left same
  have shape := congrArg List.length (path.along_eq_map (front.map (·.1)))
  rw [List.length_map, List.length_map] at shape
  exact shape.symm

/-- The path of each event is that of all events before it, extended by one. -/
theorem getElem?_along (path : Path) (events : List Event) (position : Nat) :
    (path.along events)[position]? =
      events[position]?.map fun event => (event, (path.pushAll (events.take position)).push event) := by
  induction events generalizing path position with
  | nil => rfl
  | cons event rest ih =>
      cases position with
      | zero => rfl
      | succ position => exact ih (path.push event) position

end Path

namespace Item

@[simp] theorem yielded_append (first second : List (Item ε)) :
    yielded (first ++ second) = yielded first ++ yielded second :=
  List.filterMap_append

@[simp] theorem yielded_error (error : ε) : yielded [(.error error : Item ε)] = [] := rfl

@[simp] theorem yielded_map_ok (pulled : List (Event × Path)) :
    yielded (pulled.map .ok : List (Item ε)) = pulled := by
  induction pulled with
  | nil => rfl
  | cons event rest ih => exact congrArg (event :: ·) ih

@[simp] theorem yielded_items (path : Path) (events : List Event) :
    yielded (path.items events : List (Item ε)) = path.along events := by
  rw [Path.items_eq_map_along, yielded_map_ok]

end Item

end ConfigScript
