import ConfigScript.Event.Tree

/-!
# The event grammar is self-delimiting

What holds of the parts of a tree holds of the tree by induction, one case for each form of a value.
A value says itself where it ends: whatever events follow, they can be told from it in one way only.
So no value is the beginning of a longer one.
-/

set_option autoImplicit false

namespace ConfigScript

namespace Tree

/-- Induction on a tree, from the values of its entries or from its items. -/
@[elab_as_elim, induction_eliminator]
theorem induction {motive : Tree → Prop} (primitive : ∀ text, motive (.primitive text))
    (tagged : ∀ name payload, motive payload → motive (.tagged name payload))
    (object : ∀ entries, (∀ entry ∈ entries, motive entry.2) → motive (.object entries))
    (array : ∀ items, (∀ item ∈ items, motive item) → motive (.array items)) (tree : Tree) :
    motive tree :=
  @Tree.rec motive (fun entries => ∀ entry ∈ entries, motive entry.2)
    (fun items => ∀ item ∈ items, motive item) (fun entry => motive entry.2)
    primitive tagged object array
    nofun (fun _ _ first rest => List.forall_mem_cons.2 ⟨first, rest⟩)
    nofun (fun _ _ first rest => List.forall_mem_cons.2 ⟨first, rest⟩)
    (fun _ _ value => value) tree

theorem events_eq_cons (tree : Tree) :
    ∃ event rest, tree.events = event :: rest ∧ event.startsValue = true := by
  cases tree <;> exact ⟨_, _, rfl, rfl⟩

theorem events_ne_nil (tree : Tree) : tree.events ≠ [] := by
  obtain ⟨event, rest, shape, _⟩ := tree.events_eq_cons
  simp [shape]

theorem itemsEvents_eq_flatMap (items : List Tree) :
    itemsEvents items = items.flatMap events := by
  induction items with
  | nil => rfl
  | cons item rest ih => rw [itemsEvents, ih, List.flatMap_cons]

def entryEvents (entry : String × Tree) : List Event :=
  .key entry.1 :: entry.2.events

theorem entriesEvents_eq_flatMap (entries : List (String × Tree)) :
    entriesEvents entries = entries.flatMap entryEvents := by
  induction entries with
  | nil => rfl
  | cons entry rest ih => rw [entriesEvents, ih, List.flatMap_cons]; rfl

mutual

/-- One tree and one rest are all that a sequence of events can be split into. -/
theorem events_append_inj (first second : Tree) {firstRest secondRest : List Event}
    (same : first.events ++ firstRest = second.events ++ secondRest) :
    first = second ∧ firstRest = secondRest := by
  cases first with
  | primitive text =>
      cases second <;> simp_all [events]
  | tagged name payload =>
      cases second with
      | tagged otherName otherPayload =>
          simp only [events, List.cons_append, List.cons.injEq, Event.typeTag.injEq] at same
          obtain ⟨rfl, same⟩ := same
          obtain ⟨rfl, rfl⟩ := events_append_inj payload otherPayload same
          exact ⟨rfl, rfl⟩
      | primitive | object | array => simp [events] at same
  | object entries =>
      cases second with
      | object otherEntries =>
          simp only [events, List.cons_append, List.cons.injEq, true_and, List.append_assoc,
            List.nil_append] at same
          obtain ⟨rfl, rfl⟩ := entriesEvents_append_inj entries otherEntries same
          exact ⟨rfl, rfl⟩
      | primitive | tagged | array => simp [events] at same
  | array items =>
      cases second with
      | array otherItems =>
          simp only [events, List.cons_append, List.cons.injEq, true_and, List.append_assoc,
            List.nil_append] at same
          obtain ⟨rfl, rfl⟩ := itemsEvents_append_inj items otherItems same
          exact ⟨rfl, rfl⟩
      | primitive | tagged | object => simp [events] at same

theorem entriesEvents_append_inj (first second : List (String × Tree))
    {firstRest secondRest : List Event}
    (same : entriesEvents first ++ .objectClose :: firstRest =
      entriesEvents second ++ .objectClose :: secondRest) :
    first = second ∧ firstRest = secondRest := by
  match first, second with
  | [], [] => simpa [entriesEvents] using same
  | [], _ :: _ => simp [entriesEvents] at same
  | _ :: _, [] => simp [entriesEvents] at same
  | (key, value) :: rest, (otherKey, otherValue) :: otherRest =>
      simp only [entriesEvents, List.cons_append, List.cons.injEq, Event.key.injEq,
        List.append_assoc] at same
      obtain ⟨rfl, same⟩ := same
      obtain ⟨rfl, sameRest⟩ := events_append_inj value otherValue same
      obtain ⟨rfl, rfl⟩ := entriesEvents_append_inj rest otherRest sameRest
      exact ⟨rfl, rfl⟩

theorem itemsEvents_append_inj (first second : List Tree) {firstRest secondRest : List Event}
    (same : itemsEvents first ++ .arrayClose :: firstRest =
      itemsEvents second ++ .arrayClose :: secondRest) :
    first = second ∧ firstRest = secondRest := by
  match first, second with
  | [], [] => simpa [itemsEvents] using same
  | [], value :: _ =>
      obtain ⟨event, _, shape, starts⟩ := value.events_eq_cons
      simp only [itemsEvents, shape, List.nil_append, List.cons_append, List.cons.injEq] at same
      simp [← same.1, Event.startsValue] at starts
  | value :: _, [] =>
      obtain ⟨event, _, shape, starts⟩ := value.events_eq_cons
      simp only [itemsEvents, shape, List.nil_append, List.cons_append, List.cons.injEq] at same
      simp [same.1, Event.startsValue] at starts
  | value :: rest, otherValue :: otherRest =>
      simp only [itemsEvents, List.append_assoc] at same
      obtain ⟨rfl, sameRest⟩ := events_append_inj value otherValue same
      obtain ⟨rfl, rfl⟩ := itemsEvents_append_inj rest otherRest sameRest
      exact ⟨rfl, rfl⟩

end

theorem events_injective : Function.Injective events := by
  intro tree other same
  exact (events_append_inj tree other (congrArg (· ++ []) same)).1

end Tree

/-- No well-formed sequence is a proper beginning of another. -/
theorem WellFormed.rest_eq_nil {events rest : List Event} (whole : WellFormed events)
    (longer : WellFormed (events ++ rest)) : rest = [] := by
  obtain ⟨tree, rfl⟩ := whole
  obtain ⟨other, shape⟩ := longer
  have same : other.events ++ [] = tree.events ++ rest := by simpa using shape
  exact (Tree.events_append_inj other tree same).2.symm

end ConfigScript
