import ConfigScript.Proofs.Decode.Consumption
import ConfigScript.Proofs.Event.Extent

/-!
# Taking the parts of a container

The loops over elements and entries take the parts of a tree one after another, given what the
reader of a part takes, and skipping takes whatever is skippable.
-/

set_option autoImplicit false

namespace ConfigScript

namespace Tree

/-- The event that a tree begins with. -/
def opening : Tree → Event
  | .primitive text => .primitive text
  | .tagged name _ => .typeTag name
  | .object _ => .objectOpen
  | .array _ => .arrayOpen

theorem exists_events_eq (tree : Tree) : ∃ rest, tree.events = tree.opening :: rest := by
  cases tree <;> exact ⟨_, rfl⟩

theorem opening_ne_arrayClose (tree : Tree) : tree.opening ≠ .arrayClose := by
  cases tree <;> exact Event.noConfusion

end Tree

namespace Reader

variable {ε α κ : Type} {element value : Reader ε α} {result : Except Cause α} {tree : Tree}

theorem Takes.nextElement (looks : Looks element) (takes : Takes element tree.events result) :
    Takes (nextElement element) tree.events (result.map some) := by
  obtain ⟨rest, shape⟩ := tree.exists_events_eq
  rw [shape] at takes ⊢
  unfold Reader.nextElement
  refine Takes.peek_bind ?_ ?_
  · rw [if_neg tree.opening_ne_arrayClose]
    exact looks.bind _
  · rw [if_neg tree.opening_ne_arrayClose]
    exact takes.map some

theorem TakesUpTo.nextElement : TakesUpTo .arrayClose (nextElement element) [] (.ok none) := by
  intro pulled shape place rest consumed
  obtain rfl := List.map_eq_nil_iff.1 shape
  rfl

/-- The elements of a sequence are taken one by one. -/
theorem TakesUpTo.elements {interpret : Tree → Except Cause α} (reads : TakesValue element)
    {trees : List Tree} (takes : ∀ tree ∈ trees, Takes element tree.events (interpret tree)) :
    TakesUpTo .arrayClose (elements element) (Tree.itemsEvents trees) (trees.mapM interpret) := by
  rw [Tree.itemsEvents_eq_flatMap]
  exact collect (reads.advances.nextElement reads.isLocal.steady) reads.isLocal.steady.nextElement
    (fun tree member => (takes tree member).nextElement reads.looks) TakesUpTo.nextElement

theorem Takes.nextKey (name : String) :
    Takes (nextKey : Reader ε (Option String)) [.key name] (.ok (some name)) := by
  intro pulled shape rest consumed
  obtain ⟨⟨_, place⟩, rfl, same⟩ := List.map_eq_singleton_iff.1 shape
  cases same
  rfl

/-- A step that begins with a key stops at the end of the entries. -/
theorem TakesUpTo.of_nextKey {σ : Type} {step : Option String → Reader ε (Option σ)}
    (ends : step none = Pure.pure none) :
    TakesUpTo .objectClose (Reader.nextKey >>= step) [] (.ok none) := by
  intro pulled shape place rest consumed
  obtain rfl := List.map_eq_nil_iff.1 shape
  have seen : Reader.nextKey ⟨.ok (.objectClose, place) :: rest, none, consumed⟩ =
      (.ok none, (⟨rest, some (.objectClose, place), consumed⟩ : Decoder ε)) := rfl
  exact (bind_of_ok seen).trans (by rw [ends]; rfl)

section Entries

variable {σ : Type} {entry : String × Tree} {more : List Event}

/-- A step that begins with a key goes on from the key. -/
theorem Takes.nextKey_bind {step : Option String → Reader ε α} {name : String}
    (takes : Takes (step (some name)) more result) :
    Takes (Reader.nextKey >>= step) (.key name :: more) result :=
  (nextKey name).bind_ok takes

theorem Takes.nextEntry {key : String → Except Cause κ} {interpret : Tree → Except Cause α}
    (takes : Takes value entry.2.events (interpret entry.2)) :
    Takes (nextEntry key value) (Tree.entryEvents entry)
      ((do return (← key entry.1, ← interpret entry.2)).map some) := by
  refine nextKey_bind ?_
  refine ((of_except (key entry.1)).bind _ fun name _ =>
    takes.map fun value => some (name, value)).of_eq ?_
  cases key entry.1 with
  | error cause => rfl
  | ok name => cases interpret entry.2 <;> rfl

/-- The entries of an object are taken one by one. -/
theorem TakesUpTo.entries {key : String → Except Cause κ} (reads : TakesValue value)
    (interpret : Tree → Except Cause α) {trees : List (String × Tree)}
    (takes : ∀ entry ∈ trees, Takes value entry.2.events (interpret entry.2)) :
    TakesUpTo .objectClose (entries key value) (Tree.entriesEvents trees)
      (trees.mapM fun entry => do return (← key entry.1, ← interpret entry.2)) := by
  rw [Tree.entriesEvents_eq_flatMap]
  exact collect (.nextEntry key reads.isLocal.steady) (reads.isLocal.steady.nextEntry key)
    (fun entry member => (takes entry member).nextEntry) (of_nextKey rfl)

end Entries

section Skip

variable {depth : Nat} {events : List Event}

theorem Takes.skipEvent (depth : Nat) (event : Event) :
    Takes (skipEvent depth : Reader ε (Option Nat)) [event] (depthAfter depth event) :=
  next_bind (of_except _)

theorem Takes.exists_skip (finishes : Finishes depth events) :
    ∃ last, Takes (iterate Reader.skipEvent depth : Reader ε Nat) events (.ok last) := by
  induction finishes with
  | @last depth event stops =>
      exact ⟨depth, iterate_none (fun depth => .skipEvent depth) ((skipEvent depth event).of_eq stops)⟩
  | @next depth after event rest goes _ ih =>
      obtain ⟨last, takes⟩ := ih
      exact ⟨last, iterate_some (fun depth => .skipEvent depth)
        ((skipEvent depth event).of_eq goes) takes⟩

/-- Skipping ends with the last event of what is skippable. -/
theorem Takes.skip (skippable : Skippable events) :
    Takes (skip : Reader ε Unit) events (.ok ()) := by
  obtain ⟨last, takes⟩ := exists_skip (ε := ε) (.of_skippable skippable)
  exact takes.map fun _ => ()

end Skip

end Reader

end ConfigScript
