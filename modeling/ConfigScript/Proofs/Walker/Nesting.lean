import ConfigScript.Proofs.Walker.Run

/-!
# How deep the levels of a walk are nested

All levels around the innermost one are containers that are still open, so at a value that is looked
at they are as many as the events have left open. Only a table is ever refused for the depth at
which it stands, and a greater limit makes no difference to a step that refuses none.
-/

set_option autoImplicit false

namespace ConfigScript

namespace Event

/-- How many maps and sequences are open after an event, given how many were before it. -/
def openAfter (depth : Nat) : Event → Nat
  | .objectOpen | .arrayOpen => depth + 1
  | .objectClose | .arrayClose => depth - 1
  | .key _ | .primitive _ | .typeTag _ => depth

/-- How many maps and sequences some events leave open. -/
def openContainers (events : List Event) : Nat :=
  events.foldl openAfter 0

theorem openContainers_append_singleton (events : List Event) (event : Event) :
    openContainers (events ++ [event]) = openAfter (openContainers events) event := by
  rw [openContainers, List.foldl_append]
  rfl

end Event

/-- A value is presented as a table, as a scalar, or as a float that is refused. -/
theorem Value.shape_cases (heap : Heap) (strict : Bool) (value : Value) :
    (∃ id, value = .table id ∧ value.shape heap strict = (heap.table id).shape) ∨
      value.shape heap strict = value.scalar.map .scalar ∨
      ∃ x, value.shape heap strict = .error (.imprecise x) := by
  cases value with
  | table id => exact .inl ⟨id, rfl, rfl⟩
  | float x =>
      rw [Value.shape]
      split
      · exact .inr (.inr ⟨x, rfl⟩)
      · exact .inr (.inl rfl)
  | nil | boolean | integer | string | function | foreign => exact .inr (.inl rfl)

/-- A result that does not fail for the depth at which something stands. -/
def NotTooDeep {α : Type} (result : Except Fault α) : Prop :=
  ∀ limit, result ≠ .error (.tooDeep limit)

namespace NotTooDeep

variable {α β : Type} {result : Except Fault α}

theorem map (notTooDeep : NotTooDeep result) (function : α → β) :
    NotTooDeep (result.map function) := by
  intro limit failed
  cases result with
  | ok value => cases failed
  | error fault =>
      cases failed
      exact notTooDeep limit rfl

theorem textOf (bytes : ByteArray) : NotTooDeep (textOf bytes) := by
  unfold ConfigScript.textOf
  split <;> exact nofun

theorem scalar (value : Value) : NotTooDeep value.scalar := by
  cases value with
  | string bytes => exact (textOf bytes).map _
  | _ => exact nofun

theorem keyText (key : Value) : NotTooDeep key.keyText :=
  (scalar key).map _

theorem tableShape (table : Table) : NotTooDeep table.shape := by
  unfold Table.shape
  split
  · split <;> exact nofun
  · exact (textOf _).map _
  · exact nofun

theorem shape (heap : Heap) (strict : Bool) (value : Value) :
    NotTooDeep (value.shape heap strict) := by
  rcases value.shape_cases heap strict with ⟨id, -, same⟩ | same | ⟨x, same⟩
  · exact same ▸ tableShape _
  · exact same ▸ (scalar value).map _
  · exact same ▸ nofun

end NotTooDeep

section Tables

variable {heap : Heap} {strict : Bool} {value : Value} {shape : Shape}

theorem Table.shape_ne_scalar (table : Table) (leaf : Scalar) :
    table.shape ≠ .ok (.scalar leaf) := by
  unfold Table.shape
  split
  · split <;> exact nofun
  · intro shaped
    cases named : textOf _ <;> rw [named] at shaped <;> cases shaped
  · exact nofun

/-- Only tables are presented as anything but scalars. -/
theorem Value.exists_table_of_shape (shaped : value.shape heap strict = .ok shape)
    (compound : ∀ leaf, shape ≠ .scalar leaf) :
    ∃ id, value = .table id ∧ (heap.table id).shape = .ok shape := by
  rcases value.shape_cases heap strict with ⟨id, isTable, same⟩ | same | ⟨x, same⟩
  · exact ⟨id, isTable, same.symm.trans shaped⟩
  · rw [shaped] at same
    cases leaf : value.scalar with
    | error fault =>
        rw [leaf] at same
        cases same
    | ok leaf =>
        rw [leaf] at same
        cases same
        exact absurd rfl (compound _)
  · cases shaped.symm.trans same

end Tables

namespace Level

variable {heap : Heap} {options : Options} {first last outer : List Level} {event : Event}
  {value : Value} {fault : Fault}

def isContainer : Level → Bool
  | .entries _ | .entry _ _ | .elements _ => true
  | .single _ | .closed => false

def openCount (levels : List Level) : Nat :=
  levels.countP isContainer

/-- Levels that are all open containers, perhaps apart from the innermost one. -/
def Nested (levels : List Level) : Prop :=
  ∀ level ∈ levels.tail, level.isContainer

/-- The value that the next step looks at, and the levels around it. -/
def reached? : List Level → Option (Value × List Level)
  | .closed :: outer => reached? outer
  | .single value :: outer => some (value, outer)
  | .entry value rest :: outer => some (value, .entries rest :: outer)
  | .elements (value :: rest) :: outer => some (value, .elements rest :: outer)
  | _ => none

theorem openCount_of_containers (containers : ∀ level ∈ outer, level.isContainer) :
    openCount outer = outer.length :=
  List.countP_eq_length.2 containers

theorem openCount_cons_of_container {level : Level} (container : level.isContainer) :
    openCount (level :: outer) = openCount outer + 1 :=
  List.countP_cons_of_pos container

theorem openCount_cons_of_other {level : Level} (other : level.isContainer = false) :
    openCount (level :: outer) = openCount outer :=
  List.countP_cons_of_neg (by simp [other])

theorem openCount_le_length (levels : List Level) : openCount levels ≤ levels.length :=
  List.countP_le_length

namespace Nested

theorem leave (nested : Nested (.closed :: outer)) : Nested outer :=
  fun level member => nested level (List.mem_of_mem_tail member)

/-- At a value that is looked at, all levels around it are open containers. -/
theorem of_reached (nested : Nested first) (reached : reached? first = some (value, outer)) :
    (∀ level ∈ outer, level.isContainer) ∧ openCount first = outer.length := by
  induction first with
  | nil => cases reached
  | cons level levels ih =>
      have containers : ∀ level ∈ levels, level.isContainer := nested
      cases level with
      | closed => exact ih nested.leave reached
      | single value =>
          cases reached
          exact ⟨nested, openCount_of_containers nested⟩
      | entry value rest =>
          cases reached
          refine ⟨List.forall_mem_cons.2 ⟨rfl, containers⟩, ?_⟩
          rw [openCount_cons_of_container rfl, openCount_of_containers containers, List.length_cons]
      | elements rest =>
          cases rest with
          | nil => cases reached
          | cons value rest =>
              cases reached
              refine ⟨List.forall_mem_cons.2 ⟨rfl, containers⟩, ?_⟩
              rw [openCount_cons_of_container rfl, openCount_of_containers containers,
                List.length_cons]
      | entries rest => cases reached

end Nested

namespace Opens

theorem openCount_eq (opens : Opens heap options value outer event last) :
    openCount last = event.openAfter (openCount outer) := by
  cases opens with
  | scalar => rfl
  | tagged => exact openCount_cons_of_other rfl
  | sequence => exact openCount_cons_of_container rfl
  | map => exact openCount_cons_of_container rfl

theorem nested (opens : Opens heap options value outer event last)
    (containers : ∀ level ∈ outer, level.isContainer) : Nested last := by
  cases opens with
  | scalar => exact fun level member => containers level (List.mem_of_mem_tail member)
  | tagged | sequence | map => exact containers

theorem length_le (opens : Opens heap options value outer event last)
    (room : outer.length ≤ options.maxDepth) : last.length ≤ options.maxDepth := by
  cases opens with
  | scalar => exact room
  | tagged _ _ _ less => exact less
  | sequence _ _ less => exact less
  | map _ _ less => exact less

end Opens

namespace Steps

/-- The open containers among the levels change as the event says. -/
theorem openCount_eq (steps : Steps heap options first event last) :
    openCount last = event.openAfter (openCount first) := by
  induction steps with
  | closed _ ih => rw [ih, openCount_cons_of_other rfl]
  | single value opens => rw [opens.openCount_eq, openCount_cons_of_other rfl]
  | entry value rest opens =>
      rw [opens.openCount_eq, openCount_cons_of_container rfl, openCount_cons_of_container rfl]
  | element value rest opens =>
      rw [opens.openCount_eq, openCount_cons_of_container rfl, openCount_cons_of_container rfl]
  | key value rest outer _ =>
      rw [openCount_cons_of_container rfl, openCount_cons_of_container rfl]
      rfl
  | objectClose outer | arrayClose outer =>
      rw [openCount_cons_of_other rfl, openCount_cons_of_container rfl]
      rfl

theorem nested (steps : Steps heap options first event last) (nested : Nested first) :
    Nested last := by
  induction steps with
  | closed _ ih => exact ih nested.leave
  | single value opens => exact opens.nested nested
  | entry value rest opens => exact opens.nested (List.forall_mem_cons.2 ⟨rfl, nested⟩)
  | element value rest opens => exact opens.nested (List.forall_mem_cons.2 ⟨rfl, nested⟩)
  | key | objectClose | arrayClose => exact nested

theorem length_le (steps : Steps heap options first event last)
    (room : first.length ≤ options.maxDepth) : last.length ≤ options.maxDepth := by
  induction steps with
  | closed _ ih => exact ih (Nat.le_of_succ_le room)
  | single value opens => exact opens.length_le (Nat.le_of_succ_le room)
  | entry value rest opens => exact opens.length_le room
  | element value rest opens => exact opens.length_le room
  | key | objectClose | arrayClose => exact room

end Steps

/-- A value is refused for its depth when it is a table that could be presented elsewhere. -/
theorem enter_eq_tooDeep_iff {limit : Nat} :
    enter heap options value outer = .error (.tooDeep limit) ↔
      (∃ id shape, value = .table id ∧ (heap.table id).shape = .ok shape) ∧
        options.maxDepth ≤ outer.length ∧ limit = options.maxDepth := by
  unfold enter
  cases shaped : value.shape heap options.strictIntegers with
  | error fault =>
      constructor
      · intro failed
        cases failed
        exact absurd shaped (NotTooDeep.shape _ _ _ limit)
      · intro refused
        obtain ⟨⟨id, shape, rfl, tableShaped⟩, -⟩ := refused
        cases shaped.symm.trans tableShaped
  | ok shape =>
      cases shape with
      | scalar leaf =>
          refine iff_of_false nofun ?_
          intro refused
          obtain ⟨⟨id, shape, rfl, tableShaped⟩, -⟩ := refused
          cases shaped.symm.trans tableShaped
          exact (heap.table id).shape_ne_scalar leaf tableShaped
      | tagged | sequence | map =>
          obtain ⟨id, rfl, tableShaped⟩ :=
            Value.exists_table_of_shape shaped fun leaf same => by cases same
          by_cases full : options.maxDepth ≤ outer.length
          · simp [Shape.opening, full, tableShaped, eq_comm]
          · simp [Shape.opening, full]

theorem step?_of_reached (reached : reached? first = some (value, outer)) :
    step? heap options first = some (enter heap options value outer) := by
  induction first with
  | nil => cases reached
  | cons level levels ih =>
      cases level with
      | closed => exact ih reached
      | single | entry =>
          cases reached
          rfl
      | entries rest => cases reached
      | elements rest =>
          cases rest with
          | nil => cases reached
          | cons =>
              cases reached
              rfl

/-- A step that looks at no value does not depend on the limit. -/
theorem step?_of_not_reached (reached : reached? first = none) (other : Options) :
    step? heap options first = step? heap other first ∧
      ∀ limit, step? heap options first ≠ some (.error (.tooDeep limit)) := by
  induction first with
  | nil => exact ⟨rfl, nofun⟩
  | cons level levels ih =>
      cases level with
      | closed => exact ih reached
      | single | entry => cases reached
      | entries rest =>
          rcases rest with _ | ⟨⟨key, value⟩, rest⟩
          · exact ⟨rfl, nofun⟩
          · refine ⟨rfl, fun limit failed => ?_⟩
            exact (NotTooDeep.keyText key).map _ limit (Option.some.inj failed)
      | elements rest =>
          cases rest with
          | nil => exact ⟨rfl, nofun⟩
          | cons => cases reached

theorem step?_eq_tooDeep_iff {limit : Nat} :
    step? heap options first = some (.error (.tooDeep limit)) ↔
      (∃ id outer shape, reached? first = some (.table id, outer) ∧
        (heap.table id).shape = .ok shape ∧ options.maxDepth ≤ outer.length) ∧
        limit = options.maxDepth := by
  cases reached : reached? first with
  | none =>
      refine iff_of_false ((step?_of_not_reached reached options).2 limit) ?_
      intro refused
      obtain ⟨⟨_, _, _, found, _⟩, -⟩ := refused
      cases found
  | some found =>
      obtain ⟨value, outer⟩ := found
      rw [step?_of_reached reached, Option.some.injEq, enter_eq_tooDeep_iff]
      constructor
      · intro refused
        obtain ⟨⟨id, shape, rfl, shaped⟩, full, same⟩ := refused
        exact ⟨⟨id, outer, shape, rfl, shaped, full⟩, same⟩
      · intro refused
        obtain ⟨⟨id, _, shape, same, shaped, full⟩, limited⟩ := refused
        cases same
        exact ⟨⟨id, shape, rfl, shaped⟩, full, limited⟩

theorem length_le_of_reached (reached : reached? first = some (value, outer)) :
    outer.length ≤ first.length := by
  induction first with
  | nil => cases reached
  | cons level levels ih =>
      cases level with
      | closed => exact Nat.le_succ_of_le (ih reached)
      | single value =>
          cases reached
          exact Nat.le_succ _
      | entry =>
          cases reached
          exact Nat.le_refl _
      | entries => cases reached
      | elements rest =>
          cases rest with
          | nil => cases reached
          | cons =>
              cases reached
              exact Nat.le_refl _

/-- A greater limit makes a difference only to a table that the smaller one refuses. -/
theorem step?_deeper {limit : Nat} (room : first.length ≤ options.maxDepth)
    (deeper : options.maxDepth < limit) :
    step? heap { options with maxDepth := limit } first = step? heap options first ∨
      step? heap options first = some (.error (.tooDeep options.maxDepth)) ∧
        ∃ event last,
          step? heap { options with maxDepth := limit } first = some (.ok (event, last)) := by
  cases reached : reached? first with
  | none => exact .inl (step?_of_not_reached reached options).1
  | some found =>
      obtain ⟨value, outer⟩ := found
      have within : ¬ limit ≤ outer.length := by
        have := length_le_of_reached reached
        omega
      simp only [step?_of_reached reached, enter]
      cases value.shape heap options.strictIntegers with
      | error fault => exact .inl rfl
      | ok shape =>
          by_cases full : options.maxDepth ≤ outer.length
          · cases shape <;> simp [Shape.opening, full, within]
          · cases shape <;> simp [Shape.opening, full, within]

theorem Walks.length_le {events : List Event} (walks : Walks heap options first events last)
    (room : first.length ≤ options.maxDepth) : last.length ≤ options.maxDepth := by
  induction walks with
  | refl => exact room
  | leave _ ih => exact ih (Nat.le_of_succ_le room)
  | step stepped _ ih => exact ih ((step?_eq_ok_iff.1 stepped).length_le room)

theorem Walks.deeper {limit : Nat} {events : List Event}
    (walks : Walks heap options first events last) (room : first.length ≤ options.maxDepth)
    (deeper : options.maxDepth < limit) :
    Walks heap { options with maxDepth := limit } first events last := by
  induction walks with
  | refl => exact .refl
  | leave _ ih => exact .leave (ih (Nat.le_of_succ_le room))
  | step stepped _ ih =>
      refine .step ?_ (ih ((step?_eq_ok_iff.1 stepped).length_le room))
      rcases step?_deeper room deeper with same | ⟨refused, _⟩
      · exact same.trans stepped
      · cases stepped.symm.trans refused

end Level

end ConfigScript
