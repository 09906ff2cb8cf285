import ConfigScript.Proofs.Value.Acyclic
import ConfigScript.Proofs.Walker.Run

/-!
# A walk is the recursive presentation

From levels whose next step presents a value, a walk goes through the events of the presentation of
that value and comes back to the levels around it, or meets the fault of the presentation. This
holds for every value that can be taken apart only so far, by induction on that, whatever levels
are around it.
-/

set_option autoImplicit false

namespace ConfigScript

namespace Presentation

/-- The event that opens a container or a carrier, if as many containers may be open. -/
def opening (options : Options) (depth : Nat) (event : Event) : Presentation :=
  if options.maxDepth ≤ depth then failed (.tooDeep options.maxDepth) else single event

theorem append_assoc (first second third : Presentation) :
    first ++ second ++ third = first ++ (second ++ third) := by
  obtain ⟨events, fault⟩ := first
  obtain ⟨more, other⟩ := second
  cases fault with
  | some fault => rfl
  | none =>
      cases other with
      | some fault => rfl
      | none => exact congrArg (mk · third.fault) (List.append_assoc events more third.events)

theorem append_empty (presentation : Presentation) : presentation ++ ⟨[], none⟩ = presentation := by
  obtain ⟨events, fault⟩ := presentation
  cases fault with
  | some fault => rfl
  | none => exact congrArg (mk · none) (List.append_nil events)

theorem concat_append (front back : List Presentation) :
    concat (front ++ back) = concat front ++ concat back := by
  induction front with
  | nil => rfl
  | cons first front ih => rw [List.cons_append, concat, ih, concat, append_assoc]

/-- Presentations in a row are those before one of them, this one, and the rest. -/
theorem exists_concat_pmap {α : Type} {Known Finite : α → Prop}
    (presents : ∀ item, Finite item → Presentation) (implies : ∀ item, Known item → Finite item)
    {before after : List α} {item : α} (known : ∀ other ∈ before ++ item :: after, Known other)
    (finite : ∀ other ∈ before, Finite other) (itemFinite : Finite item) :
    ∃ rest, concat ((before ++ item :: after).pmap
        (fun item known => presents item (implies item known)) known) =
      concat (before.pmap presents finite) ++ (presents item itemFinite ++ rest) := by
  obtain ⟨first, others⟩ := List.forall_mem_append.1 known
  have leading : before.pmap (fun item known => presents item (implies item known)) first =
      before.pmap presents finite := List.pmap_congr_left before fun _ _ _ _ => rfl
  refine ⟨concat (after.pmap (fun item known => presents item (implies item known))
    (List.forall_mem_cons.1 others).2), ?_⟩
  rw [List.pmap_append, concat_append, List.pmap_cons, concat, leading]

theorem opening_append (options : Options) (depth : Nat) (event : Event) (rest : Presentation) :
    opening options depth event ++ rest =
      if options.maxDepth ≤ depth then failed (.tooDeep options.maxDepth)
      else single event ++ rest := by
  unfold opening
  split <;> rfl

end Presentation

namespace Level

open Presentation (opening opening_append)

variable {heap : Heap} {options : Options} {first middle last outer : List Level}
  {presentation front back : Presentation} {value : Value}

/-- Levels that go through a presentation and then are others, unless the presentation ends in a
fault. -/
inductive Shows (heap : Heap) (options : Options) (first : List Level) :
    Presentation → List Level → Prop where
  | whole {events : List Event} {last : List Level} :
      Walks heap options first events last → Shows heap options first ⟨events, none⟩ last
  | failed {events : List Event} {middle : List Level} {fault : Fault} (last : List Level) :
      Walks heap options first events middle →
      step? heap options middle = some (.error fault) →
      Shows heap options first ⟨events, some fault⟩ last

namespace Shows

theorem single {event : Event} (stepped : step? heap options first = some (.ok (event, last))) :
    Shows heap options first (.single event) last :=
  .whole (.single stepped)

theorem fault {fault : Fault} (failure : step? heap options first = some (.error fault)) :
    Shows heap options first (.failed fault) last :=
  .failed last .refl failure

theorem append (shown : Shows heap options first front middle)
    (rest : Shows heap options middle back last) :
    Shows heap options first (front ++ back) last := by
  cases shown with
  | whole walks =>
      cases rest with
      | whole more => exact .whole (walks.trans more)
      | failed _ more failure => exact .failed last (walks.trans more) failure
  | failed _ walks failure => exact .failed last walks failure

theorem leave (shown : Shows heap options first presentation (.closed :: outer)) :
    Shows heap options first presentation outer := by
  cases shown with
  | whole walks => simpa using Shows.whole (walks.trans (.leave .refl))
  | failed _ walks failure => exact .failed outer walks failure

end Shows

/-- A value whose presentation is shown wherever a step enters it with some containers open. -/
def Shown (heap : Heap) (options : Options) (value : Value) (depth : Nat)
    (presentation : Presentation) : Prop :=
  ∀ first outer, step? heap options first = some (enter heap options value outer) →
    outer.length = depth → Shows heap options first presentation outer

theorem shows_opening {shape : Shape} {event : Event} {level : Level}
    (entering : step? heap options first = some (enter heap options value outer))
    (shaped : value.shape heap options.strictIntegers = .ok shape)
    (opened : shape.opening = (event, some level)) :
    Shows heap options first (opening options outer.length event) (level :: outer) := by
  unfold opening
  split
  · next full => exact .fault (by simp [entering, enter, shaped, opened, full])
  · next room => exact .single (by simp [entering, enter, shaped, opened, room])

section Parts

variable {Known : Value → Prop} (presents : ∀ part, Known part → Presentation)

theorem shows_elements (elements rest : List Value) (known : ∀ element ∈ elements, Known element)
    (shown : ∀ element (member : element ∈ elements),
      Shown heap options element (outer.length + 1) (presents element (known element member))) :
    Shows heap options (.elements (elements ++ rest) :: outer)
      (.concat (elements.pmap presents known)) (.elements rest :: outer) := by
  induction elements with
  | nil => exact .whole .refl
  | cons element elements ih =>
      have front : Shows heap options (.elements (element :: (elements ++ rest)) :: outer)
          (presents element (known element List.mem_cons_self))
          (.elements (elements ++ rest) :: outer) := shown element List.mem_cons_self _ _ rfl rfl
      exact front.append (ih _ fun part member => shown part (List.mem_cons_of_mem _ member))

theorem shows_key (key value : Value) (rest : List (Value × Value)) :
    Shows heap options (.entries ((key, value) :: rest) :: outer) (.ofKey key)
      (.entry value rest :: outer) := by
  unfold Presentation.ofKey
  cases text : key.keyText with
  | ok text => exact .single (by simp [step?, text, Except.map])
  | error fault => exact .fault (by simp [step?, text, Except.map])

theorem shows_entries (pairs rest : List (Value × Value)) (known : ∀ entry ∈ pairs, Known entry.2)
    (shown : ∀ entry (member : entry ∈ pairs),
      Shown heap options entry.2 (outer.length + 1) (presents entry.2 (known entry member))) :
    Shows heap options (.entries (pairs ++ rest) :: outer)
      (.concat (pairs.pmap (fun entry known => .ofKey entry.1 ++ presents entry.2 known) known))
      (.entries rest :: outer) := by
  induction pairs with
  | nil => exact .whole .refl
  | cons entry pairs ih =>
      obtain ⟨key, value⟩ := entry
      have front : Shows heap options (.entry value (pairs ++ rest) :: outer)
          (presents value (known (key, value) List.mem_cons_self))
          (.entries (pairs ++ rest) :: outer) := shown (key, value) List.mem_cons_self _ _ rfl rfl
      exact ((shows_key key value (pairs ++ rest)).append front).append
        (ih _ fun part member => shown part (List.mem_cons_of_mem _ member))

end Parts

/-- Levels that enter a value go through its presentation, also in another heap that agrees on
it. -/
theorem shown_present {other : Heap} (finite : Acc heap.IsPart value)
    (agrees : heap.AgreesOn other value) (depth : Nat) :
    Shown other options value depth (present heap options value depth finite) := by
  induction finite generalizing depth with
  | intro value parts ih =>
      intro first outer entering length
      subst length
      have same := agrees.shape_eq options.strictIntegers
      let presents (depth : Nat) (part : Value) (isPart : heap.IsPart part value) :=
        present heap options part depth (parts part isPart)
      have shown : ∀ depth part isPart,
          Shown other options part depth (presents depth part isPart) :=
        fun depth part isPart => ih part isPart (agrees.inv isPart) depth
      rw [present]
      split
      · next fault shaped => exact .fault (by simp [entering, enter, same, shaped])
      · next leaf shaped =>
          have opened : enter other options value outer = .ok (.primitive leaf.render, outer) :=
            enter_eq_ok_iff.2 (.scalar leaf (same.trans shaped))
          exact .single (entering.trans (congrArg some opened))
      · next name payload shaped =>
          have isPart := Value.isPart_of_shape shaped (List.mem_singleton_self payload)
          rw [← opening_append]
          exact (shows_opening entering (same.trans shaped) rfl).append
            (shown outer.length payload isPart _ _ rfl rfl)
      · next elements shaped =>
          have areParts : ∀ element ∈ elements, heap.IsPart element value :=
            fun _ member => Value.isPart_of_shape shaped member
          have listed := shows_elements (presents (outer.length + 1)) elements [] areParts
            fun element member => shown _ element (areParts element member)
          rw [List.append_nil] at listed
          rw [Presentation.append_assoc, ← opening_append, ← Presentation.append_assoc]
          exact (((shows_opening entering (same.trans shaped) rfl).append
            listed).append (.single rfl)).leave
      · next pairs shaped =>
          have areParts : ∀ entry ∈ pairs, heap.IsPart entry.2 value :=
            fun _ member => Value.isPart_of_shape shaped (List.mem_map_of_mem member)
          have listed := shows_entries (presents (outer.length + 1)) pairs [] areParts
            fun entry member => shown _ entry.2 (areParts entry member)
          rw [List.append_nil] at listed
          rw [Presentation.append_assoc, ← opening_append, ← Presentation.append_assoc]
          exact (((shows_opening entering (same.trans shaped) rfl).append
            listed).append (.single rfl)).leave

end Level

namespace Walker

variable {heap : Heap} {options : Options} {levels last : List Level} {path : Path}

private theorem items_of_shows {presentation : Presentation} {pulls : Nat}
    (shown : Level.Shows heap options levels presentation [])
    (enough : (presentation.items path).length ≤ pulls) :
    (Walker.mk heap options levels path).items pulls = presentation.items path ∧
      ((Walker.mk heap options levels path).after pulls).next? = none := by
  cases shown with
  | @whole events _ walks =>
      have length : events.length ≤ pulls := by simpa [Presentation.items] using enough
      refine ⟨?_, next?_after_of_ended walks length rfl⟩
      simpa [Presentation.items] using items_of_ended walks length rfl
  | @failed events _ _ _ walks failure =>
      have length : events.length + 1 ≤ pulls := by simpa [Presentation.items] using enough
      exact ⟨items_of_failed walks length failure, next?_after_of_failed walks length failure⟩

/-- A walk over a value that reaches no cycle yields the recursive presentation of the value, item
by item, and nothing after it. -/
theorem items_eq_take_present {root : Value} (acyclic : heap.Acyclic root) (pulls : Nat) :
    let walker := Walker.start heap options root path
    let presented := (present heap options root 0 acyclic.acc).items path
    walker.items pulls = presented.take pulls ∧
      (presented.length ≤ pulls → (walker.after pulls).next? = none) := by
  intro walker presented
  have shown : Level.Shows heap options [.single root]
      (present heap options root 0 acyclic.acc) [] :=
    Level.shown_present acyclic.acc (.refl heap root) 0 _ _ rfl rfl
  refine ⟨?_, fun enough => (items_of_shows shown enough).2⟩
  have whole : walker.items (pulls + presented.length) = presented :=
    (items_of_shows shown (Nat.le_add_left _ _)).1
  rw [← whole, take_items]

/-- A point that is held twice, once under a tag. -/
def pointTwice : Heap :=
  ⟨#[⟨[(.ofText "x", .integer 1)], 0⟩, carrier "at" (.table 0),
    ⟨[(.integer 1, .table 0), (.integer 2, .table 1)], 2⟩]⟩

theorem items_of_shared_table :
    ∃ acyclic : pointTwice.Acyclic (.table 2),
      let walker := Walker.start pointTwice {} (.table 2) (.root "")
      let presented := (present pointTwice {} (.table 2) 0 acyclic.acc).items (.root "")
      walker.items 11 = presented.take 11 ∧
      Item.events (walker.items 11) =
        [.arrayOpen, .objectOpen, .key "x", .primitive "1", .objectClose, .typeTag "at",
          .objectOpen, .key "x", .primitive "1", .objectClose, .arrayClose] := by
  have older : ∀ id other, pointTwice.IsPart (.table other) (.table id) → other < id := by
    intro id other isPart
    match id, (isPart.lt_size : id < 3) with
    | 0, _ =>
        have shaped : (Value.table 0).shape pointTwice false =
            .ok (.map [(.ofText "x", .integer 1)]) := by rfl
        simpa [Shape.parts] using Value.mem_parts_of_isPart shaped isPart
    | 1, _ =>
        have shaped : (Value.table 1).shape pointTwice false =
            .ok (.tagged "at" (.table 0)) := by rfl
        have member := Value.mem_parts_of_isPart shaped isPart
        simp_all [Shape.parts]
    | 2, _ =>
        have shaped : (Value.table 2).shape pointTwice false =
            .ok (.sequence [.table 0, .table 1]) := by rfl
        have member := Value.mem_parts_of_isPart shaped isPart
        simp only [Shape.parts, List.mem_cons, Value.table.injEq, List.not_mem_nil] at member
        rcases member with rfl | rfl | none
        · decide
        · decide
        · cases none
  have acyclic := Heap.acyclic_of_older older (.table 2)
  exact ⟨acyclic, (items_eq_take_present acyclic 11).1, by decide +kernel⟩

end Walker

end ConfigScript
