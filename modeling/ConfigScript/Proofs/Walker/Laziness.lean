import ConfigScript.Proofs.Value.Position
import ConfigScript.Proofs.Walker.Nesting
import ConfigScript.Proofs.Walker.Recursion

/-!
# Walks are lazy

A value is looked at when a walk comes to it and not before. So when the value at a position is
replaced by another, whatever the two are, the walks over the old and the new root yield the same
items until both come to the position, unless both end before.
-/

set_option autoImplicit false

namespace ConfigScript

namespace Slot

/-- The levels that are left when the part at a place is entered. -/
def inside : Slot → List Level → List Level
  | .entry _ _ after, outer => .entries after :: outer
  | .element _ after, outer => .elements after :: outer
  | .payload _, outer => outer

/-- The levels whose next step enters the part at a place. -/
def pending : Slot → Value → List Level → List Level
  | .entry _ _ after, value, outer => .entry value after :: outer
  | .element _ after, value, outer => .elements (value :: after) :: outer
  | .payload _, value, outer => .single value :: outer

theorem reached?_pending (slot : Slot) (value : Value) (outer : List Level) :
    Level.reached? (slot.pending value outer) = some (value, slot.inside outer) := by
  cases slot <;> rfl

/-- What is presented of a table before the part at a place. -/
def lead (heap : Heap) (options : Options) (depth : Nat) :
    (slot : Slot) → (∀ part ∈ slot.earlier, Acc heap.IsPart part) → Presentation
  | .entry before key _, finite =>
    Presentation.opening options depth .objectOpen ++
      .concat (before.pmap
        (fun entry finite => .ofKey entry.1 ++ present heap options entry.2 (depth + 1) finite)
        (fun _ member => finite _ (List.mem_map_of_mem member))) ++
      .ofKey key
  | .element before _, finite =>
    Presentation.opening options depth .arrayOpen ++
      .concat (before.pmap (fun part finite => present heap options part (depth + 1) finite) finite)
  | .payload name, _ => Presentation.opening options depth (.typeTag name)

end Slot

/-- The levels that are left when the value at a position is entered. -/
def Position.levels (position : Position) : List Level :=
  position.foldl (fun outer slot => slot.inside outer) []

theorem Position.levels_append_singleton (position : Position) (slot : Slot) :
    Position.levels (position ++ [slot]) = slot.inside position.levels := by
  simp [levels]

/-- What is presented of a root before the value at a position. -/
inductive Heap.PresentsBefore (heap : Heap) (options : Options) (root : Value) :
    Position → Value → Presentation → Prop where
  | root : PresentsBefore heap options root [] root ⟨[], none⟩
  | part {position : Position} {before : Presentation} {id : TableId} {slot : Slot} {value : Value}
      (finite : ∀ part ∈ slot.earlier, Acc heap.IsPart part) :
      PresentsBefore heap options root position (.table id) before →
      (heap.table id).shape = .ok (slot.fill value) →
      PresentsBefore heap options root (position ++ [slot]) value
        (before ++ slot.lead heap options position.levels.length finite)

section Presented

variable {heap : Heap} {options : Options} {root value : Value} {id : TableId} {slot : Slot}
  {position : Position} {before : Presentation}

open Presentation (append_assoc append_empty opening_append exists_concat_pmap)

/-- A table is presented by what comes before a part, the part, and the rest. -/
theorem exists_present_fill (options : Options) (outer : List Level)
    (shaped : (heap.table id).shape = .ok (slot.fill value)) (finite : Acc heap.IsPart (.table id))
    (earlier : ∀ part ∈ slot.earlier, Acc heap.IsPart part) (valueFinite : Acc heap.IsPart value) :
    ∃ rest, present heap options (.table id) outer.length finite =
      slot.lead heap options outer.length earlier ++
        (present heap options value (slot.inside outer).length valueFinite ++ rest) := by
  rw [present]
  split
  · next failed => cases failed.symm.trans shaped
  · next scalar => cases slot <;> cases scalar.symm.trans shaped
  · next tagged =>
      cases slot with
      | entry | element => cases tagged.symm.trans shaped
      | payload name =>
          cases tagged.symm.trans shaped
          refine ⟨⟨[], none⟩, ?_⟩
          rw [append_empty, ← opening_append]
          rfl
  · next listed =>
      cases slot with
      | entry | payload => cases listed.symm.trans shaped
      | element before after =>
          cases listed.symm.trans shaped
          obtain ⟨rest, split⟩ := exists_concat_pmap
            (present heap options · (outer.length + 1) ·) (fun _ isPart => finite.inv isPart)
            (fun _ member => Value.isPart_of_shape listed member) earlier valueFinite
          refine ⟨rest ++ .single .arrayClose, ?_⟩
          rw [append_assoc, ← opening_append, split]
          simp only [append_assoc, Slot.lead]
          rfl
  · next listed =>
      cases slot with
      | element | payload => cases listed.symm.trans shaped
      | entry before key after =>
          cases listed.symm.trans shaped
          obtain ⟨rest, split⟩ := exists_concat_pmap (fun (entry : Value × Value) finite =>
              .ofKey entry.1 ++ present heap options entry.2 (outer.length + 1) finite)
            (fun _ isPart => finite.inv isPart)
            (fun _ member => Value.isPart_of_shape listed (List.mem_map_of_mem member))
            (fun _ member => earlier _ (List.mem_map_of_mem member)) valueFinite
          refine ⟨rest ++ .single .objectClose, ?_⟩
          rw [append_assoc, ← opening_append, split]
          simp only [append_assoc, Slot.lead]
          rfl

/-- What is presented before a position is the beginning of what is presented of the root. -/
theorem Heap.PresentsBefore.exists_present
    (presents : heap.PresentsBefore options root position value before)
    (finite : Acc heap.IsPart root) :
    ∃ valueFinite rest, present heap options root 0 finite =
      before ++ (present heap options value position.levels.length valueFinite ++ rest) := by
  induction presents with
  | root => exact ⟨finite, ⟨[], none⟩, by rw [Presentation.append_empty]; rfl⟩
  | @part position before id slot value earlier _ shaped ih =>
      obtain ⟨tableFinite, rest, presented⟩ := ih
      have valueFinite := tableFinite.inv (Heap.isPart_of_fill shaped)
      obtain ⟨more, filled⟩ := exists_present_fill options position.levels shaped tableFinite
        earlier valueFinite
      refine ⟨valueFinite, more ++ rest, ?_⟩
      rw [presented, filled, Position.levels_append_singleton]
      simp only [Presentation.append_assoc]

end Presented

namespace Level

variable {heap other : Heap} {options : Options} {first outer : List Level} {id : TableId}
  {slot : Slot} {value : Value}

/-- A step that enters a table leads to the part at a place, in every heap that agrees on what is
presented before. -/
theorem shows_pending (finite : ∀ part ∈ slot.earlier, Acc heap.IsPart part)
    (agrees : ∀ part ∈ slot.earlier, heap.AgreesOn other part)
    (entering : step? other options first = some (enter other options (.table id) outer))
    (shaped : (other.table id).shape = .ok (slot.fill value)) :
    Shows other options first (slot.lead heap options outer.length finite)
      (slot.pending value outer) := by
  have opened : (Value.table id).shape other options.strictIntegers = .ok (slot.fill value) :=
    shaped
  cases slot with
  | entry before key after =>
      have known : ∀ entry ∈ before, Acc heap.IsPart entry.2 :=
        fun entry member => finite entry.2 (List.mem_map_of_mem member)
      have listed := shows_entries (present heap options · (outer.length + 1) ·) before
        ((key, value) :: after) known
        fun entry member => shown_present _ (agrees entry.2 (List.mem_map_of_mem member)) _
      exact ((shows_opening entering opened rfl).append listed).append (shows_key key value after)
  | element before after =>
      have listed := shows_elements (present heap options · (outer.length + 1) ·) before
        (value :: after) finite fun part member => shown_present _ (agrees part member) _
      exact (shows_opening entering opened rfl).append listed
  | payload name => exact shows_opening entering opened rfl

/-- What is presented before a position leads in both heaps to the position. -/
theorem exists_shows_of_agreesBefore {root newRoot old new : Value} {position : Position}
    (agrees : heap.AgreesBefore other root newRoot position old new) (options : Options) :
    ∃ before first second, heap.PresentsBefore options root position old before ∧
      Shows heap options [.single root] before first ∧
      Shows other options [.single newRoot] before second ∧
      reached? first = some (old, position.levels) ∧
      reached? second = some (new, position.levels) := by
  induction agrees with
  | root => exact ⟨⟨[], none⟩, _, _, .root, .whole .refl, .whole .refl, rfl, rfl⟩
  | @part position id slot old new _ shaped newShaped earlier ih =>
      obtain ⟨before, first, second, presents, shows, newShows, reached, newReached⟩ := ih
      have finite : ∀ part ∈ slot.earlier, Acc heap.IsPart part :=
        fun part member => (earlier part member).1
      have agrees : ∀ part ∈ slot.earlier, heap.AgreesOn other part :=
        fun part member => (earlier part member).2
      have same : ∀ part ∈ slot.earlier, heap.AgreesOn heap part := fun part _ => .refl heap part
      have entering : step? heap options first =
          some (enter heap options (.table id) position.levels) := step?_of_reached reached
      have newEntering : step? other options second =
          some (enter other options (.table id) position.levels) := step?_of_reached newReached
      have pending := shows_pending finite same entering shaped
      have newPending := shows_pending finite agrees newEntering newShaped
      rw [Position.levels_append_singleton]
      exact ⟨_, _, _, .part finite presents shaped, shows.append pending,
        newShows.append newPending, slot.reached?_pending old _, slot.reached?_pending new _⟩

end Level

namespace Walker

variable {heap other : Heap} {options : Options} {root newRoot old new value : Value}
  {position : Position} {before : Presentation} {path : Path}

/-- The next pull yields the first item for the value at a position. -/
def ComesTo (walker : Walker) (position : Position) (value : Value) : Prop :=
  Level.reached? walker.stack = some (value, position.levels)

/-- A walker that yields some items and comes then to a position, unless the items end in an
error. -/
structure Approaches (walker : Walker) (before : Presentation) (position : Position)
    (value : Value) : Prop where
  yields : walker.items (before.items walker.path).length = before.items walker.path
  comes : before.fault = none →
    (walker.after (before.items walker.path).length).ComesTo position value
  ends : before.fault ≠ none → (walker.after (before.items walker.path).length).next? = none

theorem approaches_of_shows {levels last : List Level}
    (shows : Level.Shows heap options levels before last)
    (reached : Level.reached? last = some (value, position.levels)) (path : Path) :
    (Walker.mk heap options levels path).Approaches before position value := by
  cases shows with
  | @whole events _ walks =>
      have count : ((Presentation.mk events none).items path).length = events.length := by
        simp [Presentation.items]
      refine ⟨?_, fun _ => ?_, fun failed => absurd rfl failed⟩
      · rw [count, items_length_of_walks walks]
        simp [Presentation.items]
      · rw [count]
        exact (observe_after_of_walks (Level.reached? ·.stack) (fun _ _ => rfl) path walks 0).trans
          reached
  | @failed events middle fault _ walks failure =>
      have count : ((Presentation.mk events (some fault)).items path).length =
          events.length + 1 := by simp [Presentation.items]
      have enough := Nat.lt_succ_self events.length
      refine ⟨?_, fun whole => absurd whole (Option.some_ne_none fault), fun _ => ?_⟩
      · rw [count]
        exact items_of_failed walks enough failure
      · rw [count]
        exact next?_after_of_failed walks enough failure

/-- A list of a list and a function. -/
def listAndFunction : Heap :=
  ⟨#[⟨[(.integer 1, .ofText "x")], 1⟩,
    ⟨[(.integer 1, .table 0), (.integer 2, .function (.library "print"))], 2⟩]⟩

namespace listAndFunction

theorem shape_inner : (listAndFunction.table 0).shape = .ok (.sequence [.ofText "x"]) := by rfl

theorem shape_outer : (listAndFunction.table 1).shape =
    .ok (.sequence [.table 0, .function (.library "print")]) := by rfl

/-- The inner list is first in the outer list, and no other part is a table. -/
theorem eq_of_shape_eq_fill {whole id : TableId} {slot : Slot}
    (shaped : (listAndFunction.table whole).shape = .ok (slot.fill (.table id))) :
    whole = 1 ∧ id = 0 ∧ slot = .element [] [.function (.library "print")] := by
  have inside : whole < 2 := (Heap.isPart_of_fill shaped).lt_size
  match whole, inside with
  | 0, _ =>
      have filled := Except.ok.inj (shape_inner.symm.trans shaped)
      obtain ⟨before, after, -, split⟩ := Slot.exists_of_sequence_eq_fill filled
      have member : Value.table id ∈ [Value.ofText "x"] := by simp [split]
      cases List.mem_singleton.1 member
  | 1, _ =>
      have filled := Except.ok.inj (shape_outer.symm.trans shaped)
      obtain ⟨before, after, rfl, split⟩ := Slot.exists_of_sequence_eq_fill filled
      cases before with
      | nil =>
          obtain ⟨here, rfl⟩ := List.cons.inj split
          exact ⟨rfl, (Value.table.inj here).symm, rfl⟩
      | cons first before =>
          have member : Value.table id ∈ [Value.function (.library "print")] := by
            simp [(List.cons.inj split).2]
          cases List.mem_singleton.1 member

theorem acyclic : listAndFunction.Acyclic (.table 1) := by
  apply Heap.acyclic_of_older
  intro id other isPart
  obtain ⟨_, shape, same, shaped, member⟩ := isPart
  obtain ⟨slot, rfl⟩ := Slot.exists_of_mem_parts member
  cases same
  obtain ⟨rfl, rfl, -⟩ := eq_of_shape_eq_fill shaped
  decide

/-- No table stands at two places. -/
theorem isTreeAround (position : Position) : listAndFunction.IsTreeAround (.table 1) position := by
  refine acyclic.isTreeAround ?_ position
  intro first second id slot place _ filled _ again
  obtain ⟨rfl, rfl, rfl⟩ := eq_of_shape_eq_fill filled
  obtain ⟨rfl, -, rfl⟩ := eq_of_shape_eq_fill again
  exact ⟨rfl, rfl⟩

/-- Assigning to the second place of the outer list replaces the function. -/
theorem replaces {value : Value} (present : value ≠ .nil) :
    listAndFunction.Replaces (.table 1) [.element [.table 0] []] (.function (.library "print"))
      value (listAndFunction.assign 1 (.integer 2) value) (.table 1) := by
  have proper : (listAndFunction.table 1).IsProper :=
    ⟨by decide +kernel, by decide +kernel, by decide +kernel, by decide +kernel⟩
  exact .part .root proper shape_outer present

end listAndFunction

end Walker

end ConfigScript
