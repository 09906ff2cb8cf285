import ConfigScript.Decode.Decoder
import ConfigScript.Proofs.Event.Grammar

/-!
# How far skipping goes

Skipping counts the containers that are open and looks at nothing else. What it passes over inside a
container is balanced, but any bracket closes any other, and keys and tags may stand anywhere. So it
stops at the end of every value, and of events that are no value as well.
-/

set_option autoImplicit false

namespace ConfigScript

namespace Event

def opens : Event → Bool
  | .objectOpen | .arrayOpen => true
  | .objectClose | .arrayClose | .key _ | .primitive _ | .typeTag _ => false

def closes : Event → Bool
  | .objectClose | .arrayClose => true
  | .objectOpen | .arrayOpen | .key _ | .primitive _ | .typeTag _ => false

end Event

variable {event : Event} {events rest : List Event} {depth : Nat}

/-- Events that close whatever they open, whichever brackets they use for it. -/
inductive Balanced : List Event → Prop where
  | nil : Balanced []
  | single {event : Event} {rest : List Event} :
      event.opens = false → event.closes = false → Balanced rest → Balanced (event :: rest)
  | container {opening closing : Event} {inside rest : List Event} :
      opening.opens = true → closing.closes = true → Balanced inside → Balanced rest →
      Balanced (opening :: (inside ++ closing :: rest))

/-- Keys and tags, and then a primitive or something balanced in brackets. -/
inductive Skippable : List Event → Prop where
  | primitive (text : String) : Skippable [.primitive text]
  | key {rest : List Event} (text : String) : Skippable rest → Skippable (.key text :: rest)
  | typeTag {rest : List Event} (name : String) :
      Skippable rest → Skippable (.typeTag name :: rest)
  | container {opening closing : Event} {inside : List Event} :
      opening.opens = true → closing.closes = true → Balanced inside →
      Skippable (opening :: (inside ++ [closing]))

theorem Balanced.append (front : Balanced events) (back : Balanced rest) :
    Balanced (events ++ rest) := by
  induction front with
  | nil => exact back
  | single opens closes _ ih => exact .single opens closes ih
  | @container opening closing inside _ opens closes inner _ _ ih =>
      rw [List.cons_append, List.append_assoc, List.cons_append]
      exact .container opens closes inner ih

theorem Balanced.flatten {parts : List (List Event)} (each : ∀ part ∈ parts, Balanced part) :
    Balanced parts.flatten := by
  induction parts with
  | nil => exact .nil
  | cons part rest ih =>
      obtain ⟨first, others⟩ := List.forall_mem_cons.1 each
      exact first.append (ih others)

namespace Tree

theorem balanced_entriesEvents {entries : List (String × Tree)}
    (each : ∀ entry ∈ entries, Balanced entry.2.events) : Balanced (entriesEvents entries) := by
  rw [entriesEvents_eq_flatMap]
  apply Balanced.flatten
  intro part member
  obtain ⟨entry, present, rfl⟩ := List.mem_map.1 member
  exact .single rfl rfl (each entry present)

theorem balanced_itemsEvents {items : List Tree}
    (each : ∀ item ∈ items, Balanced item.events) : Balanced (itemsEvents items) := by
  rw [itemsEvents_eq_flatMap]
  apply Balanced.flatten
  intro part member
  obtain ⟨item, present, rfl⟩ := List.mem_map.1 member
  exact each item present

theorem balanced (tree : Tree) : Balanced tree.events := by
  induction tree with
  | primitive text => exact .single rfl rfl .nil
  | tagged name payload ih => exact .single rfl rfl ih
  | object entries ih => exact .container rfl rfl (balanced_entriesEvents ih) .nil
  | array items ih => exact .container rfl rfl (balanced_itemsEvents ih) .nil

theorem skippable (tree : Tree) : Skippable tree.events := by
  induction tree with
  | primitive text => exact .primitive text
  | tagged name payload ih => exact .typeTag name ih
  | object entries _ =>
      exact .container rfl rfl (balanced_entriesEvents fun entry _ => entry.2.balanced)
  | array items _ => exact .container rfl rfl (balanced_itemsEvents fun item _ => item.balanced)

end Tree

namespace Reader

theorem depthAfter_of_opens (opens : event.opens = true) (depth : Nat) :
    depthAfter depth event = .ok (some (depth + 1)) := by
  cases event with
  | objectOpen | arrayOpen => rfl
  | objectClose | arrayClose | key | primitive | typeTag => cases opens

theorem depthAfter_of_closes (closes : event.closes = true) (depth : Nat) :
    depthAfter (depth + 1) event = .ok (if depth = 0 then none else some depth) := by
  cases event with
  | objectClose | arrayClose => cases depth <;> rfl
  | objectOpen | arrayOpen | key | primitive | typeTag => cases closes

theorem depthAfter_of_single (opens : event.opens = false) (closes : event.closes = false)
    (depth : Nat) : depthAfter (depth + 1) event = .ok (some (depth + 1)) := by
  cases event with
  | key | primitive | typeTag => rfl
  | objectOpen | arrayOpen => cases opens
  | objectClose | arrayClose => cases closes

/-- Events that skipping takes from a depth on. -/
inductive Finishes : Nat → List Event → Prop where
  | last {depth : Nat} {event : Event} :
      depthAfter depth event = .ok none → Finishes depth [event]
  | next {depth after : Nat} {event : Event} {rest : List Event} :
      depthAfter depth event = .ok (some after) → Finishes after rest →
      Finishes depth (event :: rest)

/-- Where skipping stops does not depend on what follows. -/
theorem Finishes.eq_of_append (finishes : Finishes depth events) {others more otherMore : List Event}
    (other : Finishes depth others) (same : events ++ more = others ++ otherMore) :
    events = others := by
  induction finishes generalizing others with
  | last stops =>
      cases other with
      | last => exact congrArg ([·]) (List.cons.inj same).1
      | next goes =>
          obtain ⟨rfl, -⟩ := List.cons.inj same
          cases stops.symm.trans goes
  | next goes _ ih =>
      cases other with
      | last stops =>
          obtain ⟨rfl, -⟩ := List.cons.inj same
          cases stops.symm.trans goes
      | next otherGoes other =>
          obtain ⟨rfl, rest⟩ := List.cons.inj same
          cases goes.symm.trans otherGoes
          rw [ih other rest]

/-- Inside a container skipping goes on behind what is balanced. -/
theorem Finishes.behind (balanced : Balanced events) (finishes : Finishes (depth + 1) rest) :
    Finishes (depth + 1) (events ++ rest) := by
  induction balanced generalizing depth rest with
  | nil => exact finishes
  | single opens closes _ ih => exact .next (depthAfter_of_single opens closes depth) (ih finishes)
  | container opens closes _ _ inner ih =>
      rw [List.cons_append, List.append_assoc, List.cons_append]
      apply Finishes.next (depthAfter_of_opens opens _)
      apply inner
      exact .next (depthAfter_of_closes closes (depth + 1)) (ih finishes)

theorem Finishes.of_skippable (skippable : Skippable events) : Finishes 0 events := by
  induction skippable with
  | primitive text => exact .last rfl
  | key text _ ih | typeTag name _ ih => exact .next rfl ih
  | container opens closes inner =>
      apply Finishes.next (depthAfter_of_opens opens 0)
      apply Finishes.behind inner
      exact .last (depthAfter_of_closes closes 0)

/-- Events that close so many containers and are balanced between these. -/
inductive Closing : Nat → List Event → Prop where
  | nil : Closing 0 []
  | close {depth : Nat} {closing : Event} {inside rest : List Event} :
      Balanced inside → closing.closes = true → Closing depth rest →
      Closing (depth + 1) (inside ++ closing :: rest)

/-- A bracket that opens is closed by the first that closes, and both are between the others. -/
theorem Closing.container (opens : event.opens = true) (closing : Closing (depth + 2) events) :
    Closing (depth + 1) (event :: events) := by
  obtain _ | ⟨inner, closes, outer⟩ := closing
  obtain _ | ⟨between, closesOuter, outermost⟩ := outer
  have whole := Closing.close (.container opens closes inner between) closesOuter outermost
  rwa [List.cons_append, List.append_assoc] at whole

theorem Finishes.closing (finishes : Finishes (depth + 1) events) : Closing (depth + 1) events := by
  generalize same : depth + 1 = current at finishes ⊢
  induction finishes generalizing depth with
  | @last _ event stops =>
      subst same
      cases event with
      | objectClose | arrayClose =>
          cases depth with
          | zero => exact .close .nil rfl .nil
          | succ outer => cases stops
      | objectOpen | arrayOpen | key | primitive | typeTag => cases stops
  | @next _ after event rest goes _ ih =>
      subst same
      cases event with
      | key | primitive | typeTag =>
          cases goes
          obtain _ | ⟨inner, closes, outer⟩ := ih rfl
          exact .close (.single rfl rfl inner) closes outer
      | objectOpen | arrayOpen =>
          cases goes
          exact .container rfl (ih rfl)
      | objectClose | arrayClose =>
          cases depth with
          | zero => cases goes
          | succ outer =>
              cases goes
              exact .close .nil rfl (ih rfl)

/-- From outside of any container skipping takes nothing but what is skippable. -/
theorem Finishes.skippable (finishes : Finishes 0 events) : Skippable events := by
  generalize same : 0 = current at finishes
  induction finishes with
  | @last _ event stops =>
      subst same
      cases event with
      | primitive text => exact .primitive text
      | objectOpen | arrayOpen | objectClose | arrayClose | key | typeTag => cases stops
  | @next _ after event rest goes finishes ih =>
      subst same
      cases event with
      | key text =>
          cases goes
          exact .key text (ih rfl)
      | typeTag name =>
          cases goes
          exact .typeTag name (ih rfl)
      | objectOpen | arrayOpen =>
          cases goes
          obtain _ | ⟨inner, closes, outer⟩ := finishes.closing
          cases outer
          exact .container rfl closes inner
      | primitive | objectClose | arrayClose => cases goes

end Reader

/-- No skippable events are a proper beginning of others. -/
theorem Skippable.eq_of_append (skippable : Skippable events) {others more otherMore : List Event}
    (other : Skippable others) (same : events ++ more = others ++ otherMore) : events = others :=
  (Reader.Finishes.of_skippable skippable).eq_of_append (.of_skippable other) same

end ConfigScript
