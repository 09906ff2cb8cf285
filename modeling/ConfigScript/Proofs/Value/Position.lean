import ConfigScript.Proofs.Value.Acyclic
import ConfigScript.Proofs.Value.Assignment
import ConfigScript.Proofs.Value.Table

/-!
# Positions of values

A position leads from a root through entries, elements and payloads down to a value. Where the
tables around a position form a tree, replacing the value there leaves alone everything that is
presented before it.
-/

set_option autoImplicit false

namespace ConfigScript

/-- The place of one part in the presentation of a table, with the parts before it and after it. -/
inductive Slot where
  | entry (before : List (Value × Value)) (key : Value) (after : List (Value × Value))
  | element (before after : List Value)
  | payload (name : String)

/-- The way from a root to a value, the outermost table first. -/
abbrev Position := List Slot

namespace Slot

variable {slot : Slot} {table : Table} {part old new : Value}

/-- The shape that has a value at a place. -/
def fill : Slot → Value → Shape
  | .entry before key after, value => .map (before ++ (key, value) :: after)
  | .element before after, value => .sequence (before ++ value :: after)
  | .payload name, value => .tagged name value

/-- The key under which the table holds the part. -/
def key : Slot → Value
  | .entry _ key _ => key
  | .element before _ => .integer (Int64.ofNat (before.length + 1))
  | .payload _ => payloadKey

/-- The parts that are presented before. -/
def earlier : Slot → List Value
  | .entry before _ _ => before.map (·.2)
  | .element before _ => before
  | .payload _ => []

/-- A payload may be any value, an entry or an element any but nil. -/
def Admits : Slot → Value → Prop
  | .payload _, _ => True
  | .entry _ _ _, value | .element _ _, value => value ≠ .nil

theorem mem_parts_fill (slot : Slot) (value : Value) : value ∈ (slot.fill value).parts := by
  cases slot <;> simp [fill, Shape.parts]

theorem exists_of_mem_parts {shape : Shape} (member : part ∈ shape.parts) :
    ∃ slot, shape = fill slot part := by
  cases shape with
  | scalar leaf => cases member
  | tagged name payload =>
      cases List.mem_singleton.1 member
      exact ⟨.payload name, rfl⟩
  | sequence elements =>
      obtain ⟨before, after, rfl⟩ := List.append_of_mem member
      exact ⟨.element before after, rfl⟩
  | map pairs =>
      obtain ⟨⟨key, value⟩, listed, rfl⟩ := List.mem_map.1 member
      obtain ⟨before, after, rfl⟩ := List.append_of_mem listed
      exact ⟨.entry before key after, rfl⟩

theorem exists_of_sequence_eq_fill {elements : List Value}
    (filled : .sequence elements = slot.fill part) :
    ∃ before after, slot = .element before after ∧ elements = before ++ part :: after := by
  cases slot with
  | entry | payload => cases filled
  | element before after => exact ⟨before, after, rfl, Shape.sequence.inj filled⟩

/-- A part that is presented before has a place of its own. -/
theorem exists_of_mem_earlier (earlier : part ∈ slot.earlier) (value : Value) :
    ∃ place, slot.fill value = place.fill part ∧ place ≠ slot := by
  cases slot with
  | payload name => cases earlier
  | element before after =>
      obtain ⟨first, second, rfl⟩ := List.append_of_mem earlier
      refine ⟨.element first (second ++ value :: after), by simp [fill], ?_⟩
      intro same
      simpa using congrArg List.length (element.inj same).1
  | entry before key after =>
      obtain ⟨⟨other, part⟩, listed, rfl⟩ := List.mem_map.1 earlier
      obtain ⟨first, second, rfl⟩ := List.append_of_mem listed
      refine ⟨.entry first other (second ++ (key, value) :: after), by simp [fill], ?_⟩
      intro same
      simpa using congrArg List.length (entry.inj same).1

/-- An assignment under the key of a place replaces the part there and no other. -/
theorem shape_set (proper : table.IsProper) (shaped : table.shape = .ok (slot.fill old))
    (admits : slot.Admits new) : (table.set slot.key new).shape = .ok (slot.fill new) := by
  cases slot with
  | entry before key after =>
      obtain ⟨untagged, unlisted, entries⟩ := Table.shape_eq_map_iff.1 shaped
      have member : (key, old) ∈ table.entries := by simp [entries]
      have known : table.get key ≠ .nil := proper.get_ne_nil member
      have others : ∀ other, table.get other = .nil → (table.set key new).get other = .nil := by
        rintro other none
        have differs : other ≠ key := by
          rintro rfl
          exact known none
        rw [Table.get_set, if_neg differs, none]
      exact Table.shape_eq_map_iff.2
        ⟨others _ untagged, others _ unlisted, proper.set_entries entries admits⟩
  | element before after =>
      obtain ⟨untagged, listed, elements⟩ := Table.shape_eq_sequence_iff.1 shaped
      have within : before.length < table.length := by
        have := congrArg List.length elements
        simp [Table.elements] at this
        omega
      refine Table.shape_eq_sequence_iff.2 ⟨?_, ?_, ?_⟩
      · have differs : typeKey ≠ (element before after).key := by simp [typeKey, Value.ofText, key]
        rw [Table.get_set, if_neg differs, untagged]
      · rw [Table.get_set]
        split
        · exact admits
        · exact listed
      · rw [key, proper.elements_set within, elements, List.set_append_right _ _ (Nat.le_refl _)]
        simp
  | payload name =>
      obtain ⟨bytes, tag, text, content⟩ := Table.shape_eq_tagged_iff.1 shaped
      have differ : typeKey ≠ payloadKey := by decide +kernel
      refine Table.shape_eq_tagged_iff.2 ⟨bytes, ?_, text, ?_⟩
      · rw [Table.get_set]
        exact (if_neg differ).trans tag
      · rw [Table.get_set]
        exact if_pos rfl

end Slot

namespace Heap

variable {heap other : Heap} {root newRoot part value old new : Value} {id : TableId}
  {position front : Position} {slot last : Slot}

/-- The value at a position. -/
inductive Stands (heap : Heap) (root : Value) : Position → Value → Prop where
  | root : Stands heap root [] root
  | part {position : Position} {id : TableId} {slot : Slot} {value : Value} :
      Stands heap root position (.table id) →
      (heap.table id).shape = .ok (slot.fill value) → Stands heap root (position ++ [slot]) value

/-- No table is come to by two ways that do not lead into a position. What is around the position is
then a tree: no table is shared there or comes back to itself. -/
def IsTreeAround (heap : Heap) (root : Value) (position : Position) : Prop :=
  ∀ first second id, heap.Stands root first (.table id) → heap.Stands root second (.table id) →
    ¬ position <+: first → ¬ position <+: second → first = second

/-- The heap after an assignment to a table. -/
def assign (heap : Heap) (id : TableId) (key value : Value) : Heap :=
  heap.put id ((heap.table id).set key value)

/-- A heap and a root in which the value at a position is replaced by another: the table that holds
it is assigned the new value under its key. Nil replaces a payload only. -/
inductive Replaces (heap : Heap) (root : Value) :
    Position → Value → Value → Heap → Value → Prop where
  | root (new : Value) : Replaces heap root [] root new heap new
  | part {position : Position} {id : TableId} {slot : Slot} {old new : Value} :
      heap.Stands root position (.table id) → (heap.table id).IsProper →
      (heap.table id).shape = .ok (slot.fill old) → slot.Admits new →
      Replaces heap root (position ++ [slot]) old new (heap.assign id slot.key new) root

theorem table_assign (inside : id < heap.tables.size) (key value : Value) (other : TableId) :
    (heap.assign id key value).table other =
      if other = id then (heap.table id).set key value else heap.table other := by
  simp only [assign, put, Heap.table, Array.getElem?_setIfInBounds]
  split
  · next same => simp [← same, inside]
  · next differs => rw [if_neg fun same => differs same.symm]

theorem isPart_of_fill (shaped : (heap.table id).shape = .ok (slot.fill value)) :
    heap.IsPart value (.table id) :=
  ⟨id, slot.fill value, rfl, shaped, slot.mem_parts_fill value⟩

namespace Stands

theorem reaches (stands : heap.Stands root position value) : heap.Reaches root value := by
  induction stands with
  | root => exact .refl
  | part _ shaped ih => exact ih.tail (isPart_of_fill shaped)

theorem tail (stands : heap.Stands root position value) (isPart : heap.IsPart part value) :
    ∃ slot, heap.Stands root (position ++ [slot]) part := by
  obtain ⟨id, shape, rfl, shaped, member⟩ := isPart
  obtain ⟨slot, rfl⟩ := Slot.exists_of_mem_parts member
  exact ⟨slot, stands.part shaped⟩

theorem append (stands : heap.Stands root position value) (reached : heap.Reaches value part) :
    ∃ way, heap.Stands root (position ++ way) part := by
  induction reached with
  | refl => exact ⟨[], by simpa using stands⟩
  | tail _ isPart ih =>
      obtain ⟨way, stands⟩ := ih
      obtain ⟨slot, stands⟩ := stands.tail isPart
      exact ⟨way ++ [slot], by simpa using stands⟩

/-- A value that holds no table in two places can be taken apart only so far. -/
theorem acc (stands : heap.Stands root position value)
    (unique : ∀ first second id, heap.Stands root (position ++ first) (.table id) →
      heap.Stands root (position ++ second) (.table id) → first = second) :
    Acc heap.IsPart value := by
  apply Acyclic.acc
  intro whole reached cycle
  obtain ⟨part, returns, isPart⟩ := Relation.TransGen.tail'_iff.1 cycle
  obtain ⟨id, rfl, -⟩ := isPart.exists_table
  obtain ⟨way, once⟩ := stands.append reached
  obtain ⟨slot, inside⟩ := once.tail isPart
  obtain ⟨rest, twice⟩ := inside.append (Relation.reflTransGen_swap.1 returns)
  have same : way = way ++ [slot] ++ rest :=
    unique _ _ id once (by simpa [List.append_assoc] using twice)
  simpa using congrArg List.length same

end Stands

/-- Where no table is a part of itself and none is a part in two places, values are a tree around
every position. -/
theorem Acyclic.isTreeAround (acyclic : heap.Acyclic root)
    (once : ∀ first second id, ∀ slot place : Slot, heap.Reaches root (.table first) →
      (heap.table first).shape = .ok (slot.fill (.table id)) → heap.Reaches root (.table second) →
      (heap.table second).shape = .ok (place.fill (.table id)) → first = second ∧ slot = place)
    (position : Position) : heap.IsTreeAround root position := by
  have outermost : ∀ {way id slot}, heap.Stands root way (.table id) →
      (heap.table id).shape ≠ .ok (Slot.fill slot root) := by
    intro way id slot stands shaped
    have returns := Relation.reflTransGen_swap.1 stands.reaches
    exact acyclic root .refl (.head' (isPart_of_fill shaped) returns)
  intro first second id stands again away apart
  clear away apart
  generalize whole : Value.table id = value at stands
  induction stands generalizing second id with
  | root =>
      subst whole
      cases again with
      | root => rfl
      | part holder shaped => exact absurd shaped (outermost holder)
  | part holder shaped ih =>
      subst whole
      cases again with
      | root => exact absurd shaped (outermost holder)
      | part other filled =>
          obtain ⟨rfl, rfl⟩ := once _ _ _ _ _ holder.reaches shaped other.reaches filled
          rw [ih _ _ other rfl]

/-- Two heaps in which the same is presented before a position, where one value stands in the one
and another value in the other. -/
inductive AgreesBefore (heap other : Heap) (root newRoot : Value) :
    Position → Value → Value → Prop where
  | root : AgreesBefore heap other root newRoot [] root newRoot
  | part {position : Position} {id : TableId} {slot : Slot} {old new : Value} :
      AgreesBefore heap other root newRoot position (.table id) (.table id) →
      (heap.table id).shape = .ok (slot.fill old) → (other.table id).shape = .ok (slot.fill new) →
      (∀ part ∈ slot.earlier, Acc heap.IsPart part ∧ heap.AgreesOn other part) →
      AgreesBefore heap other root newRoot (position ++ [slot]) old new

theorem AgreesBefore.stands (agrees : heap.AgreesBefore other root newRoot position old new) :
    heap.Stands root position old ∧ other.Stands newRoot position new := by
  induction agrees with
  | root => exact ⟨.root, .root⟩
  | part _ shaped newShaped _ ih => exact ⟨ih.1.part shaped, ih.2.part newShaped⟩

section Tree

private theorem not_below_beside {slot place : Slot} (differs : place ≠ slot) (way : Position) :
    ¬ position ++ [slot] <+: position ++ [place] ++ way := by
  rw [List.append_assoc, List.prefix_append_right_inj, List.singleton_append, List.cons_prefix_cons]
  exact fun same => differs same.1.symm

private theorem not_below_of_above (above : position <+: front) :
    ¬ front ++ [last] <+: position := by
  intro below
  have := above.length_le
  have := below.length_le
  simp at this
  omega

variable (tree : heap.IsTreeAround root (front ++ [last]))
  (holder : heap.Stands root front (.table id))
  (same : ∀ apart, apart ≠ id → other.table apart = heap.table apart)

include tree holder same

/-- What is presented before the way to a position does not come back to the way. -/
theorem IsTreeAround.earlier {place : TableId} (stands : heap.Stands root position (.table place))
    (shaped : (heap.table place).shape = .ok (slot.fill value))
    (below : position ++ [slot] <+: front ++ [last]) :
    ∀ part ∈ slot.earlier, Acc heap.IsPart part ∧ heap.AgreesOn other part := by
  intro part earlier
  obtain ⟨beside, filled, differs⟩ := Slot.exists_of_mem_earlier earlier value
  have partStands := stands.part (shaped.trans (congrArg _ filled))
  have apart : ∀ way, ¬ front ++ [last] <+: position ++ [beside] ++ way :=
    fun way within => not_below_beside differs way (below.trans within)
  constructor
  · apply partStands.acc
    intro first second id once twice
    exact List.append_cancel_left (tree _ _ id once twice (apart first) (apart second))
  · intro reached reaches
    apply same
    rintro rfl
    obtain ⟨way, again⟩ := partStands.append reaches
    have joined := tree _ _ _ again holder (apart way) (not_below_of_above (List.prefix_refl _))
    rw [← joined, List.append_assoc] at below
    exact not_below_beside differs _ below

theorem IsTreeAround.above (stands : heap.Stands root position value) (above : position <+: front) :
    heap.AgreesBefore other root root position value value := by
  induction stands with
  | root => exact .root
  | @part position place slot value stands shaped ih =>
      have shorter := (List.prefix_append position [slot]).trans above
      have apart : place ≠ id := by
        rintro rfl
        have joined := tree _ _ _ stands holder (not_below_of_above shorter)
          (not_below_of_above (List.prefix_refl _))
        subst joined
        exact not_below_of_above (List.prefix_refl _) above
      exact .part (ih shorter) shaped (same place apart ▸ shaped)
        (tree.earlier holder same stands shaped (above.trans (List.prefix_append _ _)))

end Tree

/-- Around a position the values are a tree, so replacing the value there changes nothing that is
presented before. -/
theorem Replaces.agreesBefore (replaces : heap.Replaces root position old new other newRoot)
    (tree : heap.IsTreeAround root position) :
    heap.AgreesBefore other root newRoot position old new := by
  cases replaces with
  | root => exact .root
  | @part front id slot _ _ holder proper shaped admits =>
      have tables := table_assign (isPart_of_fill shaped).lt_size slot.key new
      have same : ∀ apart, apart ≠ id →
          (heap.assign id slot.key new).table apart = heap.table apart := by
        intro apart differs
        rw [tables, if_neg differs]
      refine .part (tree.above holder same holder (List.prefix_refl _)) shaped ?_
        (tree.earlier holder same holder shaped (List.prefix_refl _))
      rw [tables, if_pos rfl]
      exact Slot.shape_set proper shaped admits

end Heap

end ConfigScript
