import ConfigScript.Proofs.Association
import ConfigScript.Proofs.Event.Grammar

/-!
# Tags as keys

A tag may be written as the only key of an object that holds the payload. Where this is done in the
events of a value, it is done in its tree: what begins inside of a value also ends there, and another
value can take its place without any change to the events around it.
-/

set_option autoImplicit false

namespace ConfigScript

/-- A place in two lists one after the other is in the second of them, or in the first. -/
private theorem split_append {α : Type} {first second before rest : List α} {value : α}
    (same : first ++ second = before ++ value :: rest) :
    (∃ later, before = first ++ later ∧ second = later ++ value :: rest) ∨
      ∃ left, first = before ++ value :: left ∧ rest = left ++ second := by
  obtain ⟨later, shape, split⟩ | ⟨front, shape, split⟩ := List.append_eq_append_iff.1 same
  · exact .inl ⟨later, shape, split⟩
  · obtain ⟨rfl, behind⟩ | ⟨left, rfl, behind⟩ := List.cons_eq_append_iff.1 split
    · exact .inl ⟨[], by rw [shape, List.append_nil, List.append_nil], behind⟩
    · exact .inr ⟨left, shape, behind⟩

/-- One tag of a sequence of events becomes the key of an object, which ends behind the payload. -/
inductive Event.Untags : List Event → List Event → Prop
  | tag (before : List Event) (name : String) (payload : Tree) (after : List Event) :
      Untags (before ++ .typeTag name :: (payload.events ++ after))
        (before ++ .objectOpen :: .key name :: (payload.events ++ .objectClose :: after))

namespace Tree

/-- Trees that differ only in that some tags of the first are keys in the second, at any depth. -/
inductive Untagged : Tree → Tree → Prop
  | primitive (text : String) : Untagged (.primitive text) (.primitive text)
  | tagged (name : String) {payload other : Tree} (inside : Untagged payload other) :
      Untagged (.tagged name payload) (.tagged name other)
  | replaced (name : String) {payload other : Tree} (inside : Untagged payload other) :
      Untagged (.tagged name payload) (.object [(name, other)])
  | object {entries others : List (String × Tree)} (keys : entries.map (·.1) = others.map (·.1))
      (values : List.Forall₂ Untagged (entries.map (·.2)) (others.map (·.2))) :
      Untagged (.object entries) (.object others)
  | array {items others : List Tree} (each : List.Forall₂ Untagged items others) :
      Untagged (.array items) (.array others)

namespace Untagged

theorem of_keyed {entries others : List (String × Tree)} (keyed : Keyed Untagged entries others) :
    Untagged (.object entries) (.object others) :=
  .object keyed.map_key keyed.map_value

theorem refl (tree : Tree) : tree.Untagged tree := by
  induction tree with
  | primitive text => exact .primitive text
  | tagged name payload ih => exact .tagged name ih
  | object entries ih =>
      exact .of_keyed (List.forall₂_same.2 fun entry member => ⟨rfl, ih entry member⟩)
  | array items ih => exact .array (List.forall₂_same.2 ih)

end Untagged

/-- A value that begins inside of a part also ends there, and with a value instead of it that is the
same up to tags, the events are those of a related part. -/
def Exchanges {β : Type} (related : β → β → Prop) (events : β → List Event) (part : β) : Prop :=
  ∀ ⦃before : List Event⦄ ⦃event : Event⦄ ⦃rest : List Event⦄,
    events part = before ++ event :: rest → event.startsValue = true →
    ∃ (value : Tree) (after : List Event), event :: rest = value.events ++ after ∧
      ∀ other : Tree, value.Untagged other →
        ∃ changed, related part changed ∧ events changed = before ++ (other.events ++ after)

namespace Exchanges

variable {β : Type} {related : β → β → Prop} {events : β → List Event} {part : β}

/-- In a tree, the value that begins is the tree, or it begins behind the first event. -/
theorem node (build : β → Tree) (opening : Event)
    (shape : ∀ part, (build part).events = opening :: events part)
    (congruent : ∀ part other, related part other → (build part).Untagged (build other))
    (exchanges : Exchanges related events part) : Exchanges Untagged Tree.events (build part) := by
  intro before event rest split starts
  cases before with
  | nil =>
      refine ⟨build part, [], by rw [List.append_nil, split, List.nil_append], fun other untagged => ?_⟩
      exact ⟨other, untagged, by rw [List.append_nil, List.nil_append]⟩
  | cons first before =>
      rw [shape, List.cons_append, List.cons.injEq] at split
      obtain ⟨rfl, split⟩ := split
      obtain ⟨value, after, same, exchange⟩ := exchanges split starts
      refine ⟨value, after, same, fun other untagged => ?_⟩
      obtain ⟨changed, alike, changedEvents⟩ := exchange other untagged
      exact ⟨build changed, congruent part changed alike,
        (shape changed).trans (congrArg (opening :: ·) changedEvents)⟩

theorem entry {key : String} {value : Tree} (exchanges : Exchanges Untagged Tree.events value) :
    Exchanges (fun entry other => entry.1 = other.1 ∧ entry.2.Untagged other.2) entryEvents
      (key, value) := by
  intro before event rest split starts
  cases before with
  | nil =>
      obtain ⟨rfl, _⟩ := List.cons.inj split
      cases starts
  | cons first before =>
      obtain ⟨rfl, inside⟩ := List.cons.inj split
      obtain ⟨inner, after, same, exchange⟩ := exchanges inside starts
      refine ⟨inner, after, same, fun other untagged => ?_⟩
      obtain ⟨changed, alike, changedEvents⟩ := exchange other untagged
      exact ⟨(key, changed), ⟨rfl, alike⟩, congrArg (Event.key key :: ·) changedEvents⟩

/-- Among parts up to the end of a container, the value begins in one of them. -/
theorem flatMap (reflexive : ∀ part, related part part) (close : Event)
    (ends : close.startsValue = false) {parts : List β}
    (each : ∀ part ∈ parts, Exchanges related events part) :
    Exchanges (List.Forall₂ related) (fun parts => parts.flatMap events ++ [close]) parts := by
  induction parts with
  | nil =>
      intro before event rest split starts
      have member : event ∈ [close] := by
        rw [show [close] = _ from split]
        simp
      rw [List.mem_singleton.1 member, ends] at starts
      cases starts
  | cons part parts ih =>
      obtain ⟨here, later⟩ := List.forall_mem_cons.1 each
      intro before event rest split starts
      simp only [List.flatMap_cons, List.append_assoc] at split ⊢
      obtain ⟨before, rfl, behind⟩ | ⟨rest, inside, rfl⟩ := split_append split
      · obtain ⟨value, after, same, exchange⟩ := ih later behind starts
        refine ⟨value, after, same, fun other untagged => ?_⟩
        obtain ⟨changed, alike, changedEvents⟩ := exchange other untagged
        refine ⟨part :: changed, .cons (reflexive part) alike, ?_⟩
        simp only [List.flatMap_cons, List.append_assoc, changedEvents]
      · obtain ⟨value, after, same, exchange⟩ := here inside starts
        refine ⟨value, after ++ (parts.flatMap events ++ [close]), ?_, fun other untagged => ?_⟩
        · rw [← List.cons_append, same, List.append_assoc]
        · obtain ⟨changed, alike, changedEvents⟩ := exchange other untagged
          have others := List.forall₂_same.2 fun part (_ : part ∈ parts) => reflexive part
          refine ⟨changed :: parts, .cons alike others, ?_⟩
          simp only [List.flatMap_cons, List.append_assoc, changedEvents]

end Exchanges

theorem exchanges (tree : Tree) : Exchanges Untagged events tree := by
  induction tree with
  | primitive text =>
      have inside : Exchanges Eq (fun _ : Unit => []) () := fun before _ _ split =>
        absurd split.symm (List.append_ne_nil_of_right_ne_nil before (List.cons_ne_nil _ _))
      exact .node (fun _ => .primitive text) (.primitive text) (fun _ => rfl)
        (fun _ _ _ => .primitive text) inside
  | tagged name payload ih =>
      exact .node (.tagged name) (.typeTag name) (fun _ => rfl) (fun _ _ => .tagged name) ih
  | object entries ih =>
      refine .node .object .objectOpen (fun entries => ?_) (fun _ _ => .of_keyed)
        (.flatMap (fun entry => ⟨rfl, .refl entry.2⟩) .objectClose rfl
          fun entry member => .entry (ih entry member))
      rw [events, entriesEvents_eq_flatMap]
  | array items ih =>
      refine .node .array .arrayOpen (fun items => ?_) (fun _ _ => .array)
        (.flatMap .refl .arrayClose rfl ih)
      rw [events, itemsEvents_eq_flatMap]

/-- A tag that is replaced in the events of a tree is one of the tree. -/
theorem exists_untagged {tree : Tree} {others : List Event}
    (untags : Event.Untags tree.events others) :
    ∃ other : Tree, tree.Untagged other ∧ other.events = others := by
  generalize shape : tree.events = given at untags
  cases untags with
  | tag before name payload after =>
      obtain ⟨value, rest, same, exchange⟩ := tree.exchanges shape rfl
      obtain ⟨rfl, rfl⟩ := events_append_inj (.tagged name payload) value same
      obtain ⟨other, untagged, otherShape⟩ :=
        exchange (.object [(name, payload)]) (.replaced name (.refl payload))
      refine ⟨other, untagged, ?_⟩
      simp [otherShape, events, entriesEvents]

end Tree

end ConfigScript
