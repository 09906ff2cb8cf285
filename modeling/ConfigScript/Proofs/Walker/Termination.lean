import ConfigScript.Proofs.Value.Ring
import ConfigScript.Proofs.Value.Table
import ConfigScript.Proofs.Walker.Run

/-!
# When a walk ends

Containers that are open count towards a limit, so a walk goes only so deep and meets only so many
parts. Carriers do not count: a walk that comes into a ring of carriers goes round for ever, and this
is the only way in which it has no end. The bound on the number of events depends on the limit and
on the size of the heap alone.
-/

set_option autoImplicit false

namespace ConfigScript

namespace Heap

variable {heap : Heap} {value : Value} {shape : Shape} {strict : Bool}

private theorem foldr_size (tables : List Table) :
    tables.length < tables.foldr (fun table total => table.size + total) 1 ∧
      ∀ table ∈ tables, table.size < tables.foldr (fun table total => table.size + total) 1 := by
  induction tables with
  | nil => simp
  | cons first rest ih =>
      obtain ⟨few, each⟩ := ih
      have some : 0 < first.size := Nat.succ_pos _
      rw [List.foldr_cons]
      refine ⟨?_, List.forall_mem_cons.2 ⟨by omega, fun table member => ?_⟩⟩
      · rw [List.length_cons]
        omega
      · have := each table member
        omega

theorem table_le_size (heap : Heap) (id : TableId) : (heap.table id).size ≤ heap.size := by
  have sizes := foldr_size heap.tables.toList
  cases found : heap.tables[id]? with
  | none =>
      simp only [table, found, Option.getD_none]
      exact Nat.one_le_of_lt sizes.1
  | some entry =>
      have member : entry ∈ heap.tables.toList :=
        Array.mem_toList_iff.2 (Array.mem_of_getElem? found)
      simp only [table, found, Option.getD_some, size]
      exact Nat.le_of_lt (sizes.2 entry member)

theorem length_tables_lt_size (heap : Heap) : heap.tables.size < heap.size := by
  simpa [size] using (foldr_size heap.tables.toList).1

end Heap

theorem Value.length_parts_le {heap : Heap} {strict : Bool} {value : Value} {shape : Shape}
    (shaped : value.shape heap strict = .ok shape) : shape.parts.length ≤ heap.size := by
  by_cases bare : shape.parts = []
  · simp [bare]
  obtain ⟨part, member⟩ := List.exists_mem_of_ne_nil _ bare
  obtain ⟨id, other, rfl, otherShaped, -⟩ := Value.isPart_of_shape shaped member
  have bounded : (heap.table id).entries.length + (heap.table id).length + 1 ≤ heap.size :=
    heap.table_le_size id
  cases shaped.symm.trans otherShaped
  cases shape with
  | scalar leaf => cases member
  | tagged name payload =>
      rw [Shape.parts, List.length_singleton]
      omega
  | sequence elements =>
      obtain ⟨-, -, rfl⟩ := Table.shape_eq_sequence_iff.1 otherShaped
      simp only [Shape.parts, Table.elements, List.length_map, List.length_range]
      omega
  | map pairs =>
      obtain ⟨-, -, rfl⟩ := Table.shape_eq_map_iff.1 otherShaped
      simp only [Shape.parts, List.length_map]
      omega

namespace Level

variable {heap : Heap} {options : Options} {first middle last outer : List Level}
  {value : Value} {bound more : Nat} {whole rest : Prop}

/-- Levels that are left again, with a number of events at most, unless a fault is met on the way or
the walk comes to a value on a ring of carriers. A statement holds if they are left. -/
inductive Settles (heap : Heap) (options : Options) (first last : List Level) (bound : Nat)
    (whole : Prop) : Prop where
  | left (events : List Event) :
      Walks heap options first events last → events.length ≤ bound → whole →
      Settles heap options first last bound whole
  | failed (events : List Event) (middle : List Level) (fault : Fault) :
      Walks heap options first events middle → events.length ≤ bound →
      step? heap options middle = some (.error fault) →
      Settles heap options first last bound whole
  | circles (events : List Event) (middle outer : List Level) (event : Event) (value : Value) :
      Walks heap options first events middle →
      step? heap options middle = some (.ok (event, .single value :: outer)) →
      outer.length < options.maxDepth → heap.OnRing value →
      Settles heap options first last bound whole

namespace Settles

theorem imp (settles : Settles heap options first last bound whole) (implies : whole → rest)
    (enough : bound ≤ more) : Settles heap options first last more rest := by
  cases settles with
  | left events walks length holds =>
      exact .left events walks (Nat.le_trans length enough) (implies holds)
  | failed events middle fault walks length failure =>
      exact .failed events middle fault walks (Nat.le_trans length enough) failure
  | circles events middle outer event value walks stepped room onRing =>
      exact .circles events middle outer event value walks stepped room onRing

theorem after {events : List Event} (walks : Walks heap options first events middle)
    (settles : Settles heap options middle last bound whole) :
    Settles heap options first last (events.length + bound) whole := by
  cases settles with
  | left rest more length holds =>
      exact .left _ (walks.trans more) (by simpa using length) holds
  | failed rest stop fault more length failure =>
      exact .failed _ stop fault (walks.trans more) (by simpa using length) failure
  | circles rest stop outer event value more stepped room onRing =>
      exact .circles _ stop outer event value (walks.trans more) stepped room onRing

theorem append (settles : Settles heap options first middle bound whole)
    (next : Settles heap options middle last more rest) :
    Settles heap options first last (bound + more) (whole ∧ rest) := by
  cases settles with
  | left events walks length holds =>
      exact (next.after walks).imp (fun after => ⟨holds, after⟩)
        (Nat.add_le_add_right length more)
  | failed events stop fault walks length failure =>
      exact .failed events stop fault walks (Nat.le_trans length (Nat.le_add_right _ _)) failure
  | circles events stop outer event value walks stepped room onRing =>
      exact .circles events stop outer event value walks stepped room onRing

end Settles

/-- How many events a value yields at most, given the size of the heap and how many more containers
may be opened: a tag for each table, two ends, and the parts with their keys. -/
def eventBound (size : Nat) : Nat → Nat
  | 0 => 1
  | room + 1 => size + (1 + size * (1 + eventBound size room) + 1)

theorem one_le_eventBound (size room : Nat) : 1 ≤ eventBound size room := by
  cases room with
  | zero => exact Nat.le_refl _
  | succ room =>
      simp only [eventBound]
      omega

/-- Every value that is entered with one more container open settles. -/
def EachSettles (heap : Heap) (options : Options) (depth bound : Nat) : Prop :=
  ∀ first outer value, outer.length = depth →
    step? heap options first = some (enter heap options value outer) →
    Settles heap options first outer bound (Acc heap.IsPart value)

theorem settles_elements (elements : List Value) {outer : List Level}
    (each : EachSettles heap options (outer.length + 1) bound) :
    Settles heap options (.elements elements :: outer) (.elements [] :: outer)
      (elements.length * (1 + bound)) (∀ element ∈ elements, Acc heap.IsPart element) := by
  induction elements with
  | nil => exact .left [] .refl (Nat.zero_le _) (by simp)
  | cons element rest ih =>
      have front : Settles heap options (.elements (element :: rest) :: outer)
          (.elements rest :: outer) bound (Acc heap.IsPart element) := each _ _ _ rfl rfl
      refine (front.append ih).imp (fun both => List.forall_mem_cons.2 both) ?_
      rw [List.length_cons, Nat.succ_mul]
      omega

theorem settles_entries (pairs : List (Value × Value)) {outer : List Level}
    (each : EachSettles heap options (outer.length + 1) bound) :
    Settles heap options (.entries pairs :: outer) (.entries [] :: outer)
      (pairs.length * (1 + bound)) (∀ entry ∈ pairs, Acc heap.IsPart entry.2) := by
  induction pairs with
  | nil => exact .left [] .refl (Nat.zero_le _) (by simp)
  | cons entry rest ih =>
      obtain ⟨key, value⟩ := entry
      cases keyed : key.keyText with
      | error fault =>
          exact .failed [] _ fault .refl (Nat.zero_le _) (by simp [step?, keyed, Except.map])
      | ok text =>
          have named : Walks heap options (.entries ((key, value) :: rest) :: outer) [.key text]
              (.entry value rest :: outer) := .single (by simp [step?, keyed, Except.map])
          have front : Settles heap options (.entry value rest :: outer) (.entries rest :: outer)
              bound (Acc heap.IsPart value) := each _ _ _ rfl rfl
          refine ((front.after named).append ih).imp (fun both => List.forall_mem_cons.2 both) ?_
          simp only [List.length_cons, List.length_nil, Nat.succ_mul]
          omega

/-- A step that enters a carrier leads along its payloads, one tag each. -/
theorem walks_carried {steps : Nat} {found : Value} (room : outer.length < options.maxDepth)
    (carried : heap.carried steps value = some found)
    (entering : step? heap options first = some (enter heap options value outer)) :
    ∃ tags middle, Walks heap options first tags middle ∧ tags.length = steps ∧
      step? heap options middle = some (enter heap options found outer) := by
  induction steps generalizing value first with
  | zero =>
      cases carried
      exact ⟨[], first, .refl, rfl, entering⟩
  | succ steps ih =>
      cases carries : heap.payload? value with
      | none => simp [Heap.carried, carries] at carried
      | some payload =>
          obtain ⟨name, shaped⟩ := Heap.exists_shape_of_payload? options.strictIntegers carries
          have tagged := enter_eq_ok_iff.2 (.tagged name payload shaped room)
          have payloadCarried : heap.carried steps payload = some found := by
            simpa [Heap.carried, carries] using carried
          have entersPayload : step? heap options (.single payload :: outer) =
              some (enter heap options payload outer) := rfl
          obtain ⟨tags, middle, walks, length, entered⟩ := ih payloadCarried entersPayload
          exact ⟨.typeTag name :: tags, middle, .step (entering.trans (congrArg some tagged)) walks,
            by simp [length], entered⟩

/-- A value on a ring is presented by a tag, and what remains is its payload on the ring. -/
theorem enter_onRing (room : outer.length < options.maxDepth) (onRing : heap.OnRing value) :
    ∃ name payload, heap.OnRing payload ∧
      enter heap options value outer = .ok (.typeTag name, .single payload :: outer) := by
  obtain ⟨payload, carries, payloadOnRing⟩ := onRing.exists_payload
  obtain ⟨name, shaped⟩ := Heap.exists_shape_of_payload? options.strictIntegers carries
  exact ⟨name, payload, payloadOnRing, enter_eq_ok_iff.2 (.tagged name payload shaped room)⟩

/-- A value that is no carrier settles when all values one container deeper do. -/
theorem settles_uncarried (uncarried : heap.payload? value = none)
    (each : EachSettles heap options (outer.length + 1) bound)
    (entering : step? heap options first = some (enter heap options value outer)) :
    Settles heap options first outer (1 + heap.size * (1 + bound) + 1) (Acc heap.IsPart value) := by
  cases entered : enter heap options value outer with
  | error fault =>
      exact .failed [] first fault .refl (Nat.zero_le _) (entering.trans (congrArg some entered))
  | ok result =>
      obtain ⟨event, levels⟩ := result
      have opening : Walks heap options first [event] levels :=
        .single (entering.trans (congrArg some entered))
      have finite : ∀ shape, value.shape heap options.strictIntegers = .ok shape →
          (∀ part ∈ shape.parts, Acc heap.IsPart part) → Acc heap.IsPart value :=
        fun shape shaped parts => ⟨_, fun part isPart =>
          parts part (Value.mem_parts_of_isPart shaped isPart)⟩
      cases enter_eq_ok_iff.1 entered with
      | scalar leaf shaped =>
          exact .left _ opening (by simp) (finite _ shaped (by simp [Shape.parts]))
      | tagged name payload shaped room =>
          simp [Heap.payload?_of_shape shaped] at uncarried
      | sequence elements shaped room =>
          have few := Value.length_parts_le shaped
          have closing : Settles heap options (.elements [] :: outer) outer 1 True :=
            .left [.arrayClose] (.step rfl (.leave .refl)) (Nat.le_refl _) trivial
          refine (((settles_elements elements each).after opening).append closing).imp
            (fun both => finite _ shaped both.1) ?_
          exact Nat.add_le_add_right
            (Nat.add_le_add_left (Nat.mul_le_mul_right _ few) _) _
      | map pairs shaped room =>
          have few := Value.length_parts_le shaped
          have closing : Settles heap options (.entries [] :: outer) outer 1 True :=
            .left [.objectClose] (.step rfl (.leave .refl)) (Nat.le_refl _) trivial
          refine (((settles_entries pairs each).after opening).append closing).imp
            (fun both => finite _ shaped (List.forall_mem_map.2 both.1)) ?_
          refine Nat.add_le_add_right (Nat.add_le_add_left (Nat.mul_le_mul_right _ ?_) _) _
          simpa [Shape.parts] using few

theorem settles_full (full : options.maxDepth ≤ outer.length)
    (entering : step? heap options first = some (enter heap options value outer)) :
    Settles heap options first outer 1 (Acc heap.IsPart value) := by
  cases entered : enter heap options value outer with
  | error fault =>
      exact .failed [] first fault .refl (Nat.zero_le _) (entering.trans (congrArg some entered))
  | ok result =>
      obtain ⟨event, levels⟩ := result
      cases enter_eq_ok_iff.1 entered with
      | scalar leaf shaped =>
          refine .left _ (.single (entering.trans (congrArg some entered))) (Nat.le_refl _) ?_
          refine ⟨_, fun part isPart => ?_⟩
          simpa [Shape.parts] using Value.mem_parts_of_isPart shaped isPart
      | tagged _ _ _ room | sequence _ _ room | map _ _ room =>
          exact absurd full (Nat.not_le_of_lt room)

/-- A value that is entered settles within the bound for the containers that may still be opened. -/
theorem eachSettles (heap : Heap) (options : Options) (depth room : Nat)
    (enough : options.maxDepth ≤ depth + room) :
    EachSettles heap options depth (eventBound heap.size room) := by
  induction room generalizing depth with
  | zero =>
      intro first outer value length entering
      exact settles_full (by omega) entering
  | succ room ih =>
      intro first outer value length entering
      by_cases full : options.maxDepth ≤ outer.length
      · exact (settles_full full entering).imp id (one_le_eventBound _ _)
      have room := Nat.lt_of_not_le full
      rcases heap.carried_ends_or_onRing value with
        ⟨steps, last, few, carried, uncarried⟩ | ⟨steps, last, carried, onRing⟩
      · obtain ⟨tags, middle, walks, tagCount, entered⟩ := walks_carried room carried entering
        have settles := settles_uncarried uncarried
          (length ▸ ih (depth + 1) (by omega)) entered
        refine (settles.after walks).imp (Heap.acc_of_carried carried) ?_
        have := heap.length_tables_lt_size
        simp only [eventBound]
        omega
      · obtain ⟨tags, middle, walks, _, entered⟩ := walks_carried room carried entering
        obtain ⟨name, payload, payloadOnRing, tagged⟩ := enter_onRing room onRing
        exact .circles tags middle outer (.typeTag name) payload walks
          (entered.trans (congrArg some tagged)) room payloadOnRing

end Level

namespace Walker

variable {heap : Heap} {options : Options} {root value : Value} {outer : List Level} {path : Path}

/-- Whether the walk comes to a value on a ring of carriers while a container may still be opened. -/
def EntersRing (walker : Walker) : Prop :=
  ∃ pulls value outer, (walker.after pulls).stack = .single value :: outer ∧
    outer.length < walker.options.maxDepth ∧ walker.heap.OnRing value

/-- A walk that has come to a ring goes round for ever. -/
theorem next?_after_ne_none (onRing : heap.OnRing value) (room : outer.length < options.maxDepth)
    (pulls : Nat) :
    ((Walker.mk heap options (.single value :: outer) path).after pulls).next? ≠ none := by
  induction pulls generalizing value path with
  | zero =>
      obtain ⟨name, payload, _, tagged⟩ := Level.enter_onRing room onRing
      simp [next?, Level.step?, tagged]
  | succ pulls ih =>
      obtain ⟨name, payload, payloadOnRing, tagged⟩ := Level.enter_onRing room onRing
      have stepped : Level.step? heap options (.single value :: outer) =
          some (.ok (.typeTag name, .single payload :: outer)) := congrArg some tagged
      rw [after_succ_of_next _ (next?_of_ok stepped)]
      exact ih payloadOnRing

theorem EntersRing.next?_ne_none {walker : Walker} (enters : walker.EntersRing) (pulls : Nat) :
    (walker.after pulls).next? ≠ none := by
  obtain ⟨before, value, outer, stack, room, onRing⟩ := enters
  intro finished
  have late := next?_after_of_le (Nat.le_add_left pulls before) finished
  rw [after_add] at late
  obtain ⟨sameHeap, sameOptions⟩ := walker.heap_after before
  have reached : walker.after before =
      ⟨walker.heap, walker.options, .single value :: outer, (walker.after before).path⟩ := by
    rw [← stack, ← sameHeap, ← sameOptions]
  rw [reached] at late
  exact next?_after_ne_none onRing room pulls late

/-- A walk that comes to no ring yields a bounded number of events and has ended after them, at the
root whole or at a fault. -/
theorem settled (free : ¬ (Walker.start heap options root path).EntersRing) :
    (Acc heap.IsPart root ∨ ∃ invalid, .error invalid ∈
      (Walker.start heap options root path).items (Level.eventBound heap.size options.maxDepth + 1)) ∧
      ((Walker.start heap options root path).after
        (Level.eventBound heap.size options.maxDepth + 1)).next? = none := by
  cases Level.eachSettles heap options 0 options.maxDepth (by omega) [.single root] [] root rfl rfl with
  | left events walks length finite =>
      exact ⟨.inl finite, next?_after_of_ended walks (by omega) rfl⟩
  | failed events middle fault walks length failure =>
      refine ⟨.inr ⟨⟨path.pushAll events, fault⟩, ?_⟩,
        next?_after_of_failed walks (by omega) failure⟩
      simp [start, items_of_failed walks (Nat.lt_succ_of_le length) failure]
  | circles events middle outer event value walks stepped room onRing =>
      refine absurd ⟨events.length + 1, value, outer, ?_, room, onRing⟩ free
      have pulled := next?_after_of_walks path walks 0
      rw [after_zero, next?_of_ok stepped] at pulled
      rw [after_add, start]
      exact congrArg stack (after_succ_of_next 0 pulled)

/-- A walk ends exactly when it comes to no ring of carriers with room for a container. When a walk
over a value that reaches a cycle ends, it has yielded an error. -/
theorem ends_iff_not_entersRing (heap : Heap) (options : Options) (root : Value) (path : Path) :
    let walker := Walker.start heap options root path
    ((∃ pulls, (walker.after pulls).next? = none) ↔ ¬ walker.EntersRing) ∧
      ∀ pulls, (walker.after pulls).next? = none → ¬ heap.Acyclic root →
        ∃ invalid, .error invalid ∈ walker.items pulls := by
  intro walker
  refine ⟨⟨fun ⟨pulls, finished⟩ enters => enters.next?_ne_none pulls finished,
    fun free => ⟨_, (settled free).2⟩⟩, ?_⟩
  intro pulls finished cyclic
  have free : ¬ walker.EntersRing := fun enters => enters.next?_ne_none pulls finished
  obtain ⟨finite | ⟨invalid, member⟩, _⟩ := settled free
  · exact absurd (Heap.acyclic_of_acc finite) cyclic
  · refine ⟨invalid, ?_⟩
    rw [← items_of_after_finished (Level.eventBound heap.size options.maxDepth + 1) finished,
      Nat.add_comm, items_add]
    exact List.mem_append_left _ member

/-- A carrier that is its own payload is walked for ever, although the limit allows only so many
containers. -/
theorem next?_of_ring_ne_none :
    ¬ ∃ pulls, ((Walker.start ⟨#[carrier "loop" (.table 0)]⟩ {} (.table 0) (.root "")).after
      pulls).next? = none := by
  rintro ⟨pulls, finished⟩
  exact next?_after_ne_none ⟨0, by decide +kernel⟩ (by decide) pulls finished

end Walker

end ConfigScript
