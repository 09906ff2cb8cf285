import ConfigScript.Presentation
import Mathlib.Data.Fintype.EquivFin

/-!
# Values without cycles

A heap is finite, so a value that reaches no cycle can be taken apart only so far. Sharing is
allowed: a table may be reached in many ways. What a value is depends on the tables that are reached
from it alone.
-/

set_option autoImplicit false

namespace ConfigScript

namespace Heap

variable {heap : Heap} {part whole root : Value} {id : TableId}

/-- The values that a presentation may come to, the root included. -/
def Reaches (heap : Heap) : Value → Value → Prop :=
  Relation.ReflTransGen fun whole part => heap.IsPart part whole

/-- No value that is reached from the root is a part of itself, however deep. -/
def Acyclic (heap : Heap) (root : Value) : Prop :=
  ∀ value, heap.Reaches root value → ¬ Relation.TransGen heap.IsPart value value

/-- A place that was never given out holds a table without parts. -/
theorem IsPart.lt_size (isPart : heap.IsPart part (.table id)) : id < heap.tables.size := by
  obtain ⟨_, shape, same, shaped, member⟩ := isPart
  cases same
  by_contra outside
  have empty : heap.table id = Table.empty := by
    simp [Heap.table, Nat.le_of_not_lt outside]
  rw [empty] at shaped
  cases shaped
  simp [Shape.parts, Table.empty] at member

theorem IsPart.exists_table (isPart : heap.IsPart part whole) :
    ∃ id, whole = .table id ∧ id < heap.tables.size := by
  have ⟨id, _, same, _, _⟩ := isPart
  subst same
  exact ⟨id, rfl, isPart.lt_size⟩

/-- A value is taken apart only so far when this holds of it wherever it is a table of the heap. -/
private theorem acc_of_table
    (table : ∀ id, id < heap.tables.size → whole = .table id → Acc heap.IsPart whole) :
    Acc heap.IsPart whole := by
  refine ⟨_, fun part isPart => ?_⟩
  obtain ⟨id, same, inside⟩ := isPart.exists_table
  exact (table id inside same).inv isPart

/-- A value that reaches no cycle can be taken apart only so far. -/
theorem Acyclic.acc (acyclic : heap.Acyclic root) : Acc heap.IsPart root := by
  let Reached := { id : Fin heap.tables.size // heap.Reaches root (.table id) }
  let below : Reached → Reached → Prop := fun first second =>
    Relation.TransGen heap.IsPart (.table first.1) (.table second.1)
  have : Finite Reached := Subtype.finite
  have : IsTrans Reached below := ⟨fun _ _ _ => Relation.TransGen.trans⟩
  have : Std.Irrefl below := ⟨fun reached => acyclic _ reached.2⟩
  have wellFounded : WellFounded below := Finite.wellFounded_of_trans_of_irrefl below
  have tables : ∀ reached : Reached, Acc heap.IsPart (.table reached.1) := by
    intro reached
    induction reached using wellFounded.induction with
    | _ reached ih =>
        refine ⟨_, fun part isPart => acc_of_table ?_⟩
        rintro id inside rfl
        exact ih ⟨⟨id, inside⟩, reached.2.tail isPart⟩ (.single isPart)
  refine acc_of_table ?_
  rintro id inside rfl
  exact tables ⟨⟨id, inside⟩, .refl⟩

/-- A value that can be taken apart only so far reaches no cycle. -/
theorem acyclic_of_acc (finite : Acc heap.IsPart root) : heap.Acyclic root := by
  intro value reached
  have valueFinite : Acc heap.IsPart value := by
    induction reached with
    | refl => exact finite
    | tail _ isPart ih => exact ih.inv isPart
  clear reached
  induction valueFinite.transGen with
  | intro value _ ih => exact fun cycle => ih value cycle (valueFinite.inv_of_transGen cycle) cycle

/-- No cycle is reached in a heap whose tables hold older tables only. -/
theorem acyclic_of_older
    (older : ∀ id other, heap.IsPart (.table other) (.table id) → other < id) (root : Value) :
    heap.Acyclic root := by
  have tables : ∀ id, Acc heap.IsPart (.table id) := by
    intro id
    induction id using Nat.strongRecOn with
    | ind id ih =>
        refine ⟨_, fun part isPart => acc_of_table ?_⟩
        rintro other _ rfl
        exact ih other (older id other isPart)
  refine acyclic_of_acc (acc_of_table ?_)
  rintro id _ rfl
  exact tables id

/-- Another heap holds all tables that are reached from a value as they are. -/
def AgreesOn (heap other : Heap) (value : Value) : Prop :=
  ∀ id, heap.Reaches value (.table id) → other.table id = heap.table id

namespace AgreesOn

variable {other : Heap} {value : Value}

theorem refl (heap : Heap) (value : Value) : heap.AgreesOn heap value :=
  fun _ _ => rfl

theorem inv (agrees : heap.AgreesOn other whole) (isPart : heap.IsPart part whole) :
    heap.AgreesOn other part :=
  fun id reached => agrees id (.head isPart reached)

theorem shape_eq (agrees : heap.AgreesOn other value) (strict : Bool) :
    value.shape other strict = value.shape heap strict := by
  cases value with
  | table id => exact congrArg Table.shape (agrees id .refl)
  | nil | boolean | integer | float | string | function | foreign => rfl

end AgreesOn

end Heap

end ConfigScript
