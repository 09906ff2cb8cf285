import ConfigScript.Item
import ConfigScript.Options
import ConfigScript.Value.Shape

set_option autoImplicit false

/-!
# Walking a value

A walker hands out the events of a value one at a time, each with the path that ends at it. The
containers that are still open are levels on a stack, so a pull does the least work that yields one
event and values that are never reached are never examined. The level of a container outlasts its
end until the next pull. The payload of a carrier is no level of its own once it is being
presented, so carriers do not count towards the depth of containers inside them.
-/

namespace ConfigScript

inductive Level where
  /-- A value that has not been looked at: the root, or the payload of a carrier. -/
  | single (value : Value)
  | entries (rest : List (Value × Value))
  /-- The value of the entry whose key was presented last, and the entries after it. -/
  | entry (value : Value) (rest : List (Value × Value))
  | elements (rest : List Value)
  /-- Nothing: the end of the container has been presented. -/
  | closed

def Shape.opening : Shape → Event × Option Level
  | .scalar leaf => (.primitive leaf.render, none)
  | .tagged name payload => (.typeTag name, some (.single payload))
  | .sequence values => (.arrayOpen, some (.elements values))
  | .map pairs => (.objectOpen, some (.entries pairs))

namespace Level

def enter (heap : Heap) (options : Options) (value : Value) (outer : List Level) :
    Except Fault (Event × List Level) :=
  match value.shape heap options.strictIntegers with
  | .error fault => .error fault
  | .ok shape =>
    match shape.opening with
    | (event, none) => .ok (event, outer)
    | (event, some level) =>
      if options.maxDepth ≤ outer.length then .error (.tooDeep options.maxDepth)
      else .ok (event, level :: outer)

/-- The next event of the innermost level that is not over, and the levels that are open after it.
There is none when all levels are over. -/
def step? (heap : Heap) (options : Options) : List Level → Option (Except Fault (Event × List Level))
  | [] => none
  | .closed :: outer => step? heap options outer
  | .single value :: outer => some (enter heap options value outer)
  | .entries [] :: outer => some (.ok (.objectClose, .closed :: outer))
  | .entries ((key, value) :: rest) :: outer =>
    some (key.keyText.map fun text => (.key text, .entry value rest :: outer))
  | .entry value rest :: outer => some (enter heap options value (.entries rest :: outer))
  | .elements [] :: outer => some (.ok (.arrayClose, .closed :: outer))
  | .elements (value :: rest) :: outer => some (enter heap options value (.elements rest :: outer))

end Level

/-- A fault at the path of the last event before it. -/
structure Invalid where
  path : Path
  fault : Fault
  deriving DecidableEq

structure Walker where
  heap : Heap
  options : Options
  stack : List Level
  path : Path

namespace Walker

def start (heap : Heap) (options : Options) (root : Value) (path : Path) : Walker :=
  ⟨heap, options, [.single root], path⟩

/-- Pulls one item. After an error nothing is left. -/
def next? (walker : Walker) : Option (Item Invalid × Walker) :=
  match Level.step? walker.heap walker.options walker.stack with
  | none => none
  | some (.error fault) => some (.error ⟨walker.path, fault⟩, { walker with stack := [] })
  | some (.ok (event, stack)) =>
    let path := walker.path.push event
    some (.ok (event, path), { walker with stack, path })

def isFinished (walker : Walker) : Bool :=
  walker.next?.isNone

def after : Nat → Walker → Walker
  | 0, walker => walker
  | pulls + 1, walker =>
    match walker.next? with
    | none => walker
    | some (_, rest) => after pulls rest

/-- Puts what some pulls yield in front of a list, newest first. -/
def itemsOnto (newestFirst : List (Item Invalid)) : Nat → Walker → List (Item Invalid)
  | 0, _ => newestFirst
  | pulls + 1, walker =>
    match walker.next? with
    | none => newestFirst
    | some (item, rest) => itemsOnto (item :: newestFirst) pulls rest

def items (pulls : Nat) (walker : Walker) : List (Item Invalid) :=
  (walker.itemsOnto [] pulls).reverse

/-- More pulls than any machine makes. -/
def unlimited : Nat :=
  0x4000000000000000

private theorem itemsOnto_eq_append (pulls : Nat) (walker : Walker)
    (newestFirst : List (Item Invalid)) :
    walker.itemsOnto newestFirst pulls = walker.itemsOnto [] pulls ++ newestFirst := by
  induction pulls generalizing walker newestFirst with
  | zero => rfl
  | succ pulls ih =>
      simp only [itemsOnto]
      split
      · rfl
      · next item rest _ =>
          rw [ih rest (item :: newestFirst), ih rest [item]]
          simp

@[simp] theorem items_zero (walker : Walker) : walker.items 0 = [] := rfl

@[simp] theorem after_zero (walker : Walker) : walker.after 0 = walker := rfl

theorem items_of_finished {walker : Walker} (pulls : Nat) (finished : walker.next? = none) :
    walker.items pulls = [] := by
  cases pulls <;> simp [items, itemsOnto, finished]

theorem after_of_finished {walker : Walker} (pulls : Nat) (finished : walker.next? = none) :
    walker.after pulls = walker := by
  cases pulls <;> simp [after, finished]

theorem items_succ_of_next {walker rest : Walker} {item : Item Invalid} (pulls : Nat)
    (pulled : walker.next? = some (item, rest)) :
    walker.items (pulls + 1) = item :: rest.items pulls := by
  simp only [items, itemsOnto, pulled]
  rw [itemsOnto_eq_append]
  simp

theorem after_succ_of_next {walker rest : Walker} {item : Item Invalid} (pulls : Nat)
    (pulled : walker.next? = some (item, rest)) :
    walker.after (pulls + 1) = rest.after pulls := by
  simp [after, pulled]

end Walker

end ConfigScript
