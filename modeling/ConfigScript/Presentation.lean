import ConfigScript.Walker

set_option autoImplicit false

/-!
# Presenting a value by recursion

The plain recursion that a walk stands for: a value is presented by its opening event, its parts in
order, and its closing event, up to the first fault. The recursion needs a value that does not come
back to itself through its parts, while parts may well be shared.
-/

namespace ConfigScript

def Shape.parts : Shape → List Value
  | .scalar _ => []
  | .tagged _ payload => [payload]
  | .sequence elements => elements
  | .map pairs => pairs.map (·.2)

/-- The values that the presentation of a table goes on to: the payload of a carrier, the elements
of a sequence, the values of the entries of a map. -/
def Heap.IsPart (heap : Heap) (part whole : Value) : Prop :=
  ∃ id shape, whole = .table id ∧ (heap.table id).shape = .ok shape ∧ part ∈ shape.parts

structure Presentation where
  events : List Event
  fault : Option Fault

namespace Presentation

def single (event : Event) : Presentation :=
  ⟨[event], none⟩

def failed (fault : Fault) : Presentation :=
  ⟨[], some fault⟩

def append (first second : Presentation) : Presentation :=
  match first.fault with
  | none => ⟨first.events ++ second.events, second.fault⟩
  | some fault => ⟨first.events, some fault⟩

instance : Append Presentation :=
  ⟨append⟩

def concat : List Presentation → Presentation
  | [] => ⟨[], none⟩
  | first :: rest => first ++ concat rest

def ofKey (key : Value) : Presentation :=
  match key.keyText with
  | .ok text => single (.key text)
  | .error fault => failed fault

/-- The items of a presentation that begins at a path. A fault stands at the path of the last event
before it. -/
def items (path : Path) (presentation : Presentation) : List (Item Invalid) :=
  path.items presentation.events ++
    match presentation.fault with
    | none => []
    | some fault => [.error ⟨path.pushAll presentation.events, fault⟩]

end Presentation

theorem Value.isPart_of_shape {heap : Heap} {strict : Bool} {value part : Value} {shape : Shape}
    (shaped : value.shape heap strict = .ok shape) (member : part ∈ shape.parts) :
    heap.IsPart part value := by
  cases value with
  | table id => exact ⟨id, shape, rfl, shaped, member⟩
  | float x =>
      simp only [Value.shape] at shaped
      split at shaped <;> cases shaped
      simp [Shape.parts] at member
  | nil | boolean | integer | string | function | foreign =>
      simp only [Value.shape, Except.map] at shaped
      split at shaped <;> cases shaped
      simp [Shape.parts] at member

theorem Value.mem_parts_of_isPart {heap : Heap} {strict : Bool} {value part : Value}
    {shape : Shape} (shaped : value.shape heap strict = .ok shape)
    (isPart : heap.IsPart part value) : part ∈ shape.parts := by
  obtain ⟨id, other, rfl, otherShaped, member⟩ := isPart
  cases shaped.symm.trans otherShaped
  exact member

/-- The presentation of a value that is reached with some containers open. A table is refused when
as many are open as may be, whatever kind of table it is. -/
def present (heap : Heap) (options : Options) (value : Value) (depth : Nat)
    (finite : Acc heap.IsPart value) : Presentation :=
  match shaped : value.shape heap options.strictIntegers with
  | .error fault => .failed fault
  | .ok (.scalar leaf) => .single (.primitive leaf.render)
  | .ok (.tagged name payload) =>
    if options.maxDepth ≤ depth then .failed (.tooDeep options.maxDepth)
    else
      have isPart : heap.IsPart payload value :=
        Value.isPart_of_shape shaped (List.mem_singleton_self payload)
      .single (.typeTag name) ++ present heap options payload depth (finite.inv isPart)
  | .ok (.sequence elements) =>
    if options.maxDepth ≤ depth then .failed (.tooDeep options.maxDepth)
    else
      .single .arrayOpen ++
        .concat (elements.pmap
          (fun element (isPart : heap.IsPart element value) =>
            present heap options element (depth + 1) (finite.inv isPart))
          (fun _ member => Value.isPart_of_shape shaped member)) ++
        .single .arrayClose
  | .ok (.map pairs) =>
    if options.maxDepth ≤ depth then .failed (.tooDeep options.maxDepth)
    else
      .single .objectOpen ++
        .concat (pairs.pmap
          (fun entry (isPart : heap.IsPart entry.2 value) =>
            .ofKey entry.1 ++ present heap options entry.2 (depth + 1) (finite.inv isPart))
          (fun _ member => Value.isPart_of_shape shaped (List.mem_map_of_mem member))) ++
        .single .objectClose
termination_by (⟨value, finite⟩ : { value // Acc heap.IsPart value })
decreasing_by all_goals exact isPart

end ConfigScript
