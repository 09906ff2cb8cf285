import ConfigScript.Proofs.Event.Grammar

/-!
# The tree of a sequence of events is found

While a sequence is read, the open parts on the stack and what they hold so far have exactly the
events that were read. So a tree that is found has the events of the sequence. In the other direction,
from any stack that admits a value the events of a tree lead to where the tree itself completes the
stack, so the tree of a well-formed sequence is always found.
-/

set_option autoImplicit false

namespace ConfigScript

namespace Tree

theorem itemsEvents_append (first second : List Tree) :
    itemsEvents (first ++ second) = itemsEvents first ++ itemsEvents second := by
  simp only [itemsEvents_eq_flatMap, List.flatMap_append]

theorem entriesEvents_append (first second : List (String × Tree)) :
    entriesEvents (first ++ second) = entriesEvents first ++ entriesEvents second := by
  simp only [entriesEvents_eq_flatMap, List.flatMap_append]

/-- The events that an open part has taken so far. -/
def Open.events : Open → List Event
  | .object entries key =>
    .objectOpen :: (entriesEvents entries.reverse ++ (key.map Event.key).toList)
  | .array items => .arrayOpen :: itemsEvents items.reverse
  | .tagged name => [.typeTag name]

namespace Progress

/-- The events that have been read, those of the outermost part first. -/
def events : Progress → List Event
  | .unfinished stack => stack.reverse.flatMap Open.events
  | .finished tree => tree.events

variable {stack : List Open} {tree : Tree} {progress next : Progress} {event : Event}

theorem events_cons (part : Open) (stack : List Open) :
    (unfinished (part :: stack)).events = (unfinished stack).events ++ part.events := by
  simp [events]

theorem events_of_complete (completed : complete stack tree = some next) :
    next.events = (unfinished stack).events ++ tree.events := by
  induction stack generalizing tree with
  | nil =>
      cases completed
      rfl
  | cons part stack ih =>
      cases part with
      | tagged name =>
          have outer := ih completed
          simpa [events_cons, Open.events, Tree.events] using outer
      | array items =>
          cases completed
          simp [events_cons, Open.events, itemsEvents_append, itemsEvents]
      | object entries key =>
          cases key with
          | none => cases completed
          | some key =>
              cases completed
              simp [events_cons, Open.events, entriesEvents_append, entriesEvents]

/-- A step takes its event and nothing else. -/
theorem events_of_step (taken : progress.step event = some next) :
    next.events = progress.events ++ [event] := by
  fun_cases step progress event with
  | case1 tree => cases taken
  | case2 stack text => exact events_of_complete taken
  -- Tags and opening brackets, where the stack admits a value and where it does not.
  | case3 | case4 | case5 | case6 | case7 | case8 =>
      obtain ⟨-, rfl⟩ := Option.ite_some_none_eq_some.1 taken
      exact events_cons _ _
  | case9 entries stack text =>
      cases taken
      simp [events_cons, Open.events]
  | case10 entries stack =>
      have closed := events_of_complete taken
      simpa [events_cons, Open.events, Tree.events] using closed
  | case11 items stack =>
      have closed := events_of_complete taken
      simpa [events_cons, Open.events, Tree.events] using closed
  | case12 => simp [step] at taken

theorem events_of_foldlM {events : List Event} (taken : events.foldlM step progress = some next) :
    next.events = progress.events ++ events := by
  induction events generalizing progress with
  | nil =>
      cases taken
      exact (List.append_nil _).symm
  | cons event rest ih =>
      obtain ⟨middle, first, later⟩ := Option.bind_eq_some_iff.1 taken
      calc
        next.events = middle.events ++ rest := ih later
        _ = (progress.events ++ [event]) ++ rest := by rw [events_of_step first]
        _ = progress.events ++ event :: rest := (List.append_cons _ _ _).symm

/-- Wherever a value may stand, reading the events of the tree completes the stack with the tree. -/
def Completes (tree : Tree) : Prop :=
  ∀ stack, admitsValue stack = true →
    tree.events.foldlM step (.unfinished stack) = complete stack tree

theorem foldlM_entriesEvents {entries : List (String × Tree)}
    (each : ∀ entry ∈ entries, Completes entry.2) (earlier : List (String × Tree))
    (stack : List Open) :
    (entriesEvents entries).foldlM step (.unfinished (.object earlier none :: stack)) =
      some (.unfinished (.object (entries.reverse ++ earlier) none :: stack)) := by
  induction entries generalizing earlier with
  | nil => rfl
  | cons entry rest ih =>
      obtain ⟨here, later⟩ := List.forall_mem_cons.1 each
      have read := here (.object earlier (some entry.1) :: stack) rfl
      simp [entriesEvents, step, read, complete, ih later]

theorem foldlM_itemsEvents {items : List Tree} (each : ∀ item ∈ items, Completes item)
    (earlier : List Tree) (stack : List Open) :
    (itemsEvents items).foldlM step (.unfinished (.array earlier :: stack)) =
      some (.unfinished (.array (items.reverse ++ earlier) :: stack)) := by
  induction items generalizing earlier with
  | nil => rfl
  | cons item rest ih =>
      obtain ⟨here, later⟩ := List.forall_mem_cons.1 each
      have read := here (.array earlier :: stack) rfl
      simp [itemsEvents, read, complete, ih later]

theorem completes (tree : Tree) : Completes tree := by
  induction tree with
  | primitive text =>
      intro stack _
      simp [Tree.events, step]
  | tagged name payload ih =>
      intro stack admits
      have inner := ih (.tagged name :: stack) rfl
      simpa [Tree.events, step, admits, complete] using inner
  | object entries ih =>
      intro stack admits
      have read := foldlM_entriesEvents ih [] stack
      simp [Tree.events, step, admits, read]
  | array items ih =>
      intro stack admits
      have read := foldlM_itemsEvents ih [] stack
      simp [Tree.events, step, admits, read]

end Progress

/-- Exactly the tree that a sequence of events presents is found. -/
theorem ofEvents?_eq_some_iff {events : List Event} {tree : Tree} :
    ofEvents? events = some tree ↔ tree.events = events := by
  constructor
  · intro found
    unfold ofEvents? at found
    split at found
    · next taken =>
        cases found
        exact Progress.events_of_foldlM taken
    · cases found
  · rintro rfl
    have taken := Progress.completes tree [] rfl
    simp only [ofEvents?, taken, Progress.complete]

end Tree

theorem wellFormed_iff_isSome {events : List Event} :
    WellFormed events ↔ (Tree.ofEvents? events).isSome = true := by
  simp only [Option.isSome_iff_exists, Tree.ofEvents?_eq_some_iff]
  exact .rfl

instance : DecidablePred WellFormed := fun _ => decidable_of_iff _ wellFormed_iff_isSome.symm

/-- An object does not end between a key and its value. -/
example : ¬ WellFormed [.objectOpen, .key "port", .objectClose] := by decide

end ConfigScript
