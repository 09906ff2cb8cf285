import ConfigScript.Item
import ConfigScript.Proofs.Event.Grammar
import Mathlib.Data.List.DropRight

/-!
# The place of an event in its value

Every value inside a tree has an address: the keys, positions and tags on the way to it. The frames
that are open after some events of a tree spell the address that the last of these events tells, so
a location is right wherever a sequence of events is cut off.
-/

set_option autoImplicit false

namespace ConfigScript

def Step.isTag : Step → Bool
  | .tag _ => true
  | .key _ | .index _ => false

/-- What an event of the value at an address leads to. The end of a value also ends the tags that it
is the payload of. -/
def Event.place (address : Address) : Event → Address
  | .objectOpen | .arrayOpen => address
  | .typeTag name => address ++ [.tag name]
  | .key text => address ++ [.key text]
  | .primitive _ | .objectClose | .arrayClose => address.rdropWhile Step.isTag

namespace Tree

mutual

/-- The events of the value at an address, each with the address of the value that it belongs to.
Elements are counted from 1. -/
def addressed (address : Address) : Tree → List (Event × Address)
  | .primitive text => [(.primitive text, address)]
  | .tagged name payload => (.typeTag name, address) :: payload.addressed (address ++ [.tag name])
  | .object entries =>
    (.objectOpen, address) :: (entriesAddressed address entries ++ [(.objectClose, address)])
  | .array items =>
    (.arrayOpen, address) :: (itemsAddressed address 0 items ++ [(.arrayClose, address)])

def entriesAddressed (address : Address) : List (String × Tree) → List (Event × Address)
  | [] => []
  | (key, value) :: rest =>
    (.key key, address) :: (value.addressed (address ++ [.key key]) ++
      entriesAddressed address rest)

def itemsAddressed (address : Address) (before : Nat) : List Tree → List (Event × Address)
  | [] => []
  | value :: rest =>
    value.addressed (address ++ [.index (before + 1)]) ++ itemsAddressed address (before + 1) rest

end

end Tree

namespace Frame

/-- The events with the address that is open after each of them. -/
def trace (frames : List Frame) : List Event → List (Event × Address)
  | [] => []
  | event :: rest => (event, address (advance frames event)) :: trace (advance frames event) rest

theorem map_trace (frames : List Frame) (events : List Event) :
    (trace frames events).map (·.1) = events := by
  induction events generalizing frames with
  | nil => rfl
  | cons event rest ih => rw [trace, List.map_cons, ih]

theorem trace_append (frames : List Frame) (first second : List Event) :
    trace frames (first ++ second) =
      trace frames first ++ trace (first.foldl advance frames) second := by
  induction first generalizing frames with
  | nil => rfl
  | cons event rest ih => rw [List.cons_append, trace, trace, ih, List.cons_append, List.foldl_cons]

theorem address_cons (frame : Frame) (outer : List Frame) :
    address (frame :: outer) = address outer ++ (step? frame).toList := by
  rw [address, List.reverse_cons, List.filterMap_append]
  cases known : step? frame <;> simp [address, known]

/-- Whether a value may begin or has just begun: the innermost container is at one of its parts. -/
def AtPart : List Frame → Prop
  | [] => True
  | .tag _ :: outer => AtPart outer
  | .object key :: _ => key.isSome
  | .array begun :: _ => 0 < begun

theorem address_closeTags {frames : List Frame} (atPart : AtPart frames) :
    address (closeTags frames) = (address frames).rdropWhile Step.isTag := by
  induction frames with
  | nil => rfl
  | cons frame outer ih =>
      rw [address_cons]
      cases frame with
      | tag name =>
          rw [closeTags, ih atPart]
          exact (List.rdropWhile_concat_pos _ _ _ rfl).symm
      | object key =>
          obtain ⟨key, rfl⟩ := Option.isSome_iff_exists.1 atPart
          exact (address_cons _ outer).trans
            (List.rdropWhile_concat_neg _ _ _ Bool.false_ne_true).symm
      | array begun =>
          obtain ⟨begun, rfl⟩ := Nat.exists_eq_succ_of_ne_zero (Nat.ne_of_gt atPart)
          exact (address_cons _ outer).trans
            (List.rdropWhile_concat_neg _ _ _ Bool.false_ne_true).symm

theorem foldl_entriesEvents {entries : List (String × Tree)}
    (values : ∀ entry ∈ entries, ∀ frames : List Frame,
      entry.2.events.foldl advance frames = closeTags (beginValue frames))
    (slot : Option String) (outer : List Frame) : ∃ last,
    (Tree.entriesEvents entries).foldl advance (.object slot :: outer) =
      .object last :: outer := by
  induction entries generalizing slot with
  | nil => exact ⟨slot, rfl⟩
  | cons entry rest ih =>
      obtain ⟨value, others⟩ := List.forall_mem_cons.1 values
      obtain ⟨last, ended⟩ := ih others (some entry.1)
      refine ⟨last, ?_⟩
      rw [Tree.entriesEvents, List.foldl_cons, List.foldl_append, value]
      exact ended

theorem foldl_itemsEvents {items : List Tree}
    (values : ∀ item ∈ items, ∀ frames : List Frame,
      item.events.foldl advance frames = closeTags (beginValue frames))
    (begun : Nat) (outer : List Frame) :
    (Tree.itemsEvents items).foldl advance (.array begun :: outer) =
      .array (begun + items.length) :: outer := by
  induction items generalizing begun with
  | nil => rfl
  | cons item rest ih =>
      obtain ⟨value, others⟩ := List.forall_mem_cons.1 values
      have ended := ih others (begun + 1)
      rw [Nat.add_right_comm, Nat.add_assoc] at ended
      rw [Tree.itemsEvents, List.foldl_append, value]
      exact ended

/-- A whole value leaves open what was open before it, but for the tags that it is the payload of. -/
theorem foldl_events (tree : Tree) (frames : List Frame) :
    tree.events.foldl advance frames = closeTags (beginValue frames) := by
  induction tree generalizing frames with
  | primitive text => rfl
  | tagged name payload ih =>
      rw [Tree.events, List.foldl_cons, ih]
      rfl
  | object entries ih =>
      obtain ⟨last, ended⟩ := foldl_entriesEvents ih none (beginValue frames)
      rw [Tree.events, List.foldl_cons, List.foldl_append, advance, ended]
      rfl
  | array items ih =>
      rw [Tree.events, List.foldl_cons, List.foldl_append, advance, foldl_itemsEvents ih]
      rfl

/-- An event with the address that it leads to, given the address of the value it belongs to. -/
def placed (event : Event × Address) : Event × Address :=
  (event.1, event.1.place event.2)

variable {entries : List (String × Tree)} {items : List Tree}

theorem trace_entriesEvents
    (values : ∀ entry ∈ entries, ∀ frames : List Frame, AtPart (beginValue frames) →
      trace frames entry.2.events =
        (entry.2.addressed (address (beginValue frames))).map placed)
    (slot : Option String) (outer : List Frame) :
    trace (.object slot :: outer) (Tree.entriesEvents entries) =
      (Tree.entriesAddressed (address outer) entries).map placed := by
  induction entries generalizing slot with
  | nil => rfl
  | cons entry rest ih =>
      obtain ⟨key, value⟩ := entry
      obtain ⟨here, others⟩ := List.forall_mem_cons.1 values
      have atKey : address (.object (some key) :: outer) = address outer ++ [.key key] :=
        address_cons _ _
      have inside : trace (.object (some key) :: outer) value.events =
          (value.addressed (address (.object (some key) :: outer))).map placed := here _ rfl
      rw [Tree.entriesEvents, trace, trace_append, Tree.entriesAddressed, List.map_cons,
        List.map_append, advance, inside, foldl_events, ← ih others (some key), atKey]
      rfl

theorem trace_itemsEvents
    (values : ∀ item ∈ items, ∀ frames : List Frame, AtPart (beginValue frames) →
      trace frames item.events = (item.addressed (address (beginValue frames))).map placed)
    (begun : Nat) (outer : List Frame) :
    trace (.array begun :: outer) (Tree.itemsEvents items) =
      (Tree.itemsAddressed (address outer) begun items).map placed := by
  induction items generalizing begun with
  | nil => rfl
  | cons item rest ih =>
      obtain ⟨here, others⟩ := List.forall_mem_cons.1 values
      have atIndex : address (.array (begun + 1) :: outer) = address outer ++ [.index (begun + 1)] :=
        address_cons _ _
      have inside : trace (.array begun :: outer) item.events =
          (item.addressed (address (.array (begun + 1) :: outer))).map placed :=
        here _ (Nat.succ_pos begun)
      rw [Tree.itemsEvents, trace_append, Tree.itemsAddressed, List.map_append, inside, atIndex,
        foldl_events, ← ih others (begun + 1)]
      rfl

/-- Each event of a value leads to its place. -/
theorem trace_events (tree : Tree) {frames : List Frame} (atPart : AtPart (beginValue frames)) :
    trace frames tree.events = (tree.addressed (address (beginValue frames))).map placed := by
  induction tree generalizing frames with
  | primitive text =>
      exact congrArg (fun place => [(Event.primitive text, place)]) (address_closeTags atPart)
  | tagged name payload ih =>
      have atTag : address (.tag name :: beginValue frames) =
          address (beginValue frames) ++ [.tag name] := address_cons _ _
      have inside : trace (.tag name :: beginValue frames) payload.events =
          (payload.addressed (address (.tag name :: beginValue frames))).map placed := ih atPart
      rw [Tree.events, trace, Tree.addressed, List.map_cons, advance, inside, atTag]
      rfl
  | object entries ih =>
      obtain ⟨last, ended⟩ := foldl_entriesEvents (fun entry _ => foldl_events entry.2) none
        (beginValue frames)
      have opened : address (.object none :: beginValue frames) = address (beginValue frames) :=
        (address_cons _ _).trans (List.append_nil _)
      have closed : trace (.object last :: beginValue frames) [.objectClose] =
          [placed (.objectClose, address (beginValue frames))] :=
        congrArg (fun place => [(Event.objectClose, place)]) (address_closeTags atPart)
      have inside := trace_entriesEvents (fun entry member _ => ih entry member) none
        (beginValue frames)
      rw [Tree.events, trace, trace_append, Tree.addressed, List.map_cons, List.map_append, advance,
        inside, ended, opened, closed]
      rfl
  | array items ih =>
      have ended : (Tree.itemsEvents items).foldl advance (.array 0 :: beginValue frames) =
          .array (0 + items.length) :: beginValue frames :=
        foldl_itemsEvents (fun item _ => foldl_events item) 0 _
      have opened : address (.array 0 :: beginValue frames) = address (beginValue frames) :=
        (address_cons _ _).trans (List.append_nil _)
      have closed : trace (.array (0 + items.length) :: beginValue frames) [.arrayClose] =
          [placed (.arrayClose, address (beginValue frames))] :=
        congrArg (fun place => [(Event.arrayClose, place)]) (address_closeTags atPart)
      have inside := trace_itemsEvents (fun item member _ => ih item member) 0 (beginValue frames)
      rw [Tree.events, trace, trace_append, Tree.addressed, List.map_cons, List.map_append, advance,
        inside, ended, opened, closed]
      rfl

theorem trace_eq_append (frames : List Frame) (before : List Event) (event : Event)
    (after : List Event) :
    trace frames (before ++ event :: after) = trace frames before ++
      (event, address ((before ++ [event]).foldl advance frames)) ::
        trace ((before ++ [event]).foldl advance frames) after := by
  rw [trace_append, trace, List.foldl_append]
  rfl

/-- What is before a key in an object makes no difference behind it. -/
theorem foldl_behind_key (entries : List (String × Tree)) (key : String) (used : List Event)
    (frames : List Frame) :
    (Event.objectOpen :: (Tree.entriesEvents entries ++ .key key :: used)).foldl advance frames =
      used.foldl advance (.object (some key) :: beginValue frames) := by
  obtain ⟨last, inside⟩ := foldl_entriesEvents (fun (entry : String × Tree) (_ : entry ∈ entries) =>
    foldl_events entry.2) none (beginValue frames)
  rw [List.foldl_cons, List.foldl_append, advance, inside]
  rfl

end Frame

namespace Path

/-- Events that lead to the same frames from any others end at the same place. -/
theorem place_pushAll_congr {used others : List Event}
    (same : ∀ frames, used.foldl Frame.advance frames = others.foldl Frame.advance frames)
    (path : Path) : (path.pushAll used).place = (path.pushAll others).place := by
  have located : (path.pushAll used).location = (path.pushAll others).location := by
    unfold location locate Frame.after
    rw [events_pushAll, events_pushAll, List.foldl_append, List.foldl_append, same]
  unfold place
  rw [source_pushAll, source_pushAll, located]

/-- Wherever the events of a value are cut off, the location is the place of the last of them. -/
theorem location_at_last_event (tree : Tree) :
    (tree.addressed []).map (·.1) = tree.events ∧
      ∀ (path : Path) (rest : List Event), tree.events = path.events ++ rest → path.events ≠ [] →
        ∃ before event address after, tree.addressed [] = before ++ (event, address) :: after ∧
          path.events = before.map (·.1) ++ [event] ∧
            path.location = (event.place address).render := by
  have atPart : Frame.AtPart (Frame.beginValue []) := trivial
  have traced : Frame.trace [] tree.events = (tree.addressed []).map Frame.placed :=
    Frame.trace_events tree atPart
  have events : (tree.addressed []).map (·.1) = tree.events := by
    rw [← Frame.map_trace [] tree.events, traced, List.map_map]
    rfl
  refine ⟨events, fun path rest shape some => ?_⟩
  obtain ⟨before, event, ended⟩ := (List.eq_nil_or_concat path.events).resolve_left some
  rw [List.concat_eq_append] at ended
  rw [ended, List.append_assoc, List.singleton_append] at shape
  -- The events before the last one and those after it, each with the address of its value.
  rw [shape, Frame.trace_eq_append] at traced
  obtain ⟨front, back, split, same, sameBack⟩ := List.map_eq_append_iff.1 traced.symm
  obtain ⟨⟨last, address⟩, after, rfl, placed, -⟩ := List.map_eq_cons_iff.1 sameBack
  obtain ⟨rfl, place⟩ := Prod.mk.inj placed
  refine ⟨front, last, address, after, split, ?_, ?_⟩
  · have named : front.map (·.1) = before := by
      rw [← Frame.map_trace [] before, ← same, List.map_map]
      rfl
    rw [ended, named]
  · rw [location, locate, Frame.after, ended]
    exact congrArg Address.render place.symm

/-- A key under the tag of the second element. -/
theorem location_of_key_under_tag :
    let tree : Tree := .array [.tagged "fixed" (.object []),
      .tagged "range" (.object [("low end", .primitive "1")])]
    let path := (root "text").pushAll [.arrayOpen, .typeTag "fixed", .objectOpen, .objectClose,
      .typeTag "range", .objectOpen, .key "low end"]
    let rest : List Event := [.primitive "1", .objectClose, .arrayClose]
    tree.events = path.events ++ rest ∧ path.events ≠ [] ∧
      path.location = "$[2]<range>[\"low end\"]" ∧
        ∃ before event address after, tree.addressed [] = before ++ (event, address) :: after ∧
          path.events = before.map (·.1) ++ [event] ∧
            path.location = (event.place address).render := by
  intro tree path rest
  have shape : tree.events = path.events ++ rest := rfl
  have some : path.events ≠ [] := by decide
  exact ⟨shape, some, by decide +kernel, (location_at_last_event tree).2 path rest shape some⟩

end Path

end ConfigScript
