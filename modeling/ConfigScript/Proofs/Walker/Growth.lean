import ConfigScript.Proofs.Item
import ConfigScript.Proofs.Walker.Run

/-!
# Paths grow by one event

A walker hands out every event with the path that it extends by it, and its own path is that of the
last event. An error stands at this path and ends the walk, and neither an error nor a pull that
yields nothing changes the path.
-/

set_option autoImplicit false

namespace ConfigScript.Walker

variable {walker rest : Walker} {path : Path} {items : List (Item Invalid)} {item : Item Invalid}
  {position : Nat}

/-- A walker that began at a path, in terms of what it has yielded. -/
inductive Traced (path : Path) (walker : Walker) (items : List (Item Invalid)) : Prop
  | going (events : List Event) (yielded : items = path.items events)
      (reached : walker.path = path.pushAll events) : Traced path walker items
  | failed (events : List Event) (fault : Fault)
      (yielded : items = path.items events ++ [.error ⟨path.pushAll events, fault⟩])
      (reached : walker.path = path.pushAll events) (empty : walker.stack = []) :
      Traced path walker items

namespace Traced

/-- An event extends the path, and an error leaves it and ends the walk. -/
theorem next (traced : Traced path walker items) (pulled : walker.next? = some (item, rest)) :
    Traced path rest (items ++ [item]) := by
  obtain ⟨heap, options, stack, place⟩ := walker
  cases traced with
  | failed events fault yielded reached empty =>
      obtain rfl : stack = [] := empty
      cases pulled
  | going events yielded reached =>
      obtain rfl : place = path.pushAll events := reached
      subst yielded
      cases stepped : Level.step? heap options stack with
      | none => cases (next?_eq_none_iff.2 stepped).symm.trans pulled
      | some result =>
          rcases result with fault | ⟨event, levels⟩
          · cases (next?_of_error stepped).symm.trans pulled
            exact .failed events fault rfl rfl rfl
          · cases (next?_of_ok stepped).symm.trans pulled
            refine .going (events ++ [event]) ?_ (path.pushAll_append events [event]).symm
            rw [path.items_append, Path.items_cons, Path.items_nil]

theorem of_start (heap : Heap) (options : Options) (root : Value) (path : Path) (pulls : Nat) :
    let walker := Walker.start heap options root path
    Traced path (walker.after pulls) (walker.items pulls) := by
  intro walker
  have start : Traced path walker [] := .going [] rfl rfl
  exact after_keeps (fun _ _ _ _ => next) start pulls

/-- What has been yielded, apart from an error. -/
theorem exists_events (traced : Traced path walker items) :
    ∃ events, Item.yielded items = path.along events ∧ Item.events items = events ∧
      walker.path = path.pushAll events := by
  cases traced with
  | going events yielded reached => exact ⟨events, by simp [yielded], by simp [yielded], reached⟩
  | failed events fault yielded reached =>
      exact ⟨events, by simp [yielded], by simp [yielded], reached⟩

theorem path_eq_following (traced : Traced path walker items) :
    walker.path = path.following (Item.yielded items) := by
  obtain ⟨events, yielded, -, reached⟩ := traced.exists_events
  rw [reached, yielded, path.following_along]

theorem path_of_event (traced : Traced path walker items) {event : Event} {place : Path}
    (found : (Item.yielded items)[position]? = some (event, place)) :
    place = (path.pushAll ((Item.events items).take position)).push event ∧
      (Item.events items)[position]? = some event := by
  obtain ⟨events, yielded, rfl, -⟩ := traced.exists_events
  rw [yielded, path.getElem?_along] at found
  obtain ⟨last, present, same⟩ := Option.map_eq_some_iff.1 found
  cases same
  exact ⟨rfl, present⟩

/-- Only the last item may be an error, and it stands at the path that has been reached. -/
theorem of_error (traced : Traced path walker items) {error : Invalid}
    (found : items[position]? = some (.error error)) :
    items.length = position + 1 ∧ error.path = walker.path ∧ walker.stack = [] := by
  have member := List.mem_of_getElem? found
  cases traced with
  | going events yielded reached =>
      exact absurd (yielded ▸ member) (path.error_not_mem_items events error)
  | failed events fault yielded reached empty =>
      subst yielded
      rcases Nat.lt_or_ge position events.length with earlier | later
      · rw [List.getElem?_append_left (by simpa using earlier)] at found
        exact absurd (List.mem_of_getElem? found) (path.error_not_mem_items events error)
      · rw [List.getElem?_append_right (by simpa using later), List.getElem?_singleton] at found
        split at found
        · next last =>
            cases found
            rw [Path.length_items] at last
            refine ⟨?_, reached.symm, empty⟩
            simp
            omega
        · cases found

end Traced

/-- Every event comes with the path that it extends by one. The path of the walker is that of the
last event, an error stands there, and after an error or a pull without a yield nothing is yielded
and the path stays. -/
theorem paths_grow (heap : Heap) (options : Options) (root : Value) (path : Path) (pulls : Nat) :
    let walker := Walker.start heap options root path
    let items := walker.items pulls
    let events := Item.events items
    let reached := (walker.after pulls).path
    (∀ position event place, (Item.yielded items)[position]? = some (event, place) →
      events[position]? = some event ∧ place.source = path.source ∧
        place.events = path.events ++ events.take (position + 1) ∧
        place.length = path.length + (position + 1) ∧ place.length = place.events.length ∧
        place.last? = some event) ∧
    reached = path.following (Item.yielded items) ∧
    (∀ (position : Nat) error, items[position]? = some (.error error) →
      error.path = reached ∧ items.length = position + 1) ∧
    ((walker.after pulls).next? = none ∨ (∃ error, .error error ∈ items) →
      ∀ more, pulls ≤ more →
        (walker.after more).next? = none ∧ (walker.after more).path = reached) := by
  intro walker items events reached
  have traced : Traced path (walker.after pulls) items := .of_start heap options root path pulls
  refine ⟨fun position event place found => ?_, traced.path_eq_following,
    fun position error found => ?_, fun ended more later => ?_⟩
  · obtain ⟨rfl, present⟩ := traced.path_of_event found
    have present : events[position]? = some event := present
    have enough : position ≤ events.length := Nat.le_of_lt (List.getElem?_eq_some_iff.1 present).1
    have taken : events.take (position + 1) = events.take position ++ [event] := by
      rw [List.take_add_one, present, Option.toList_some]
    refine ⟨present, path.source_pushAll _, ?_, ?_, Path.length_eq_length_events _, rfl⟩
    · rw [taken, Path.events_push, Path.events_pushAll, List.append_assoc]
    · rw [Path.length_push, Path.length_pushAll, List.length_take_of_le enough, Nat.add_assoc]
  · obtain ⟨last, place, -⟩ := traced.of_error found
    exact ⟨place, last⟩
  · have finished : (walker.after pulls).next? = none := by
      rcases ended with ended | ⟨error, member⟩
      · exact ended
      · obtain ⟨position, found⟩ := List.mem_iff_getElem?.1 member
        obtain ⟨-, -, empty⟩ := traced.of_error found
        exact next?_eq_none_iff.2 (by rw [empty]; rfl)
    rw [after_eq_of_le later finished]
    exact ⟨finished, rfl⟩

end ConfigScript.Walker
