import ConfigScript.Proofs.Value.Acyclic
import Mathlib.Data.Fintype.Pigeonhole

/-!
# Rings of carriers

A carrier may hold a carrier, and this one the first again. Following payloads from a value either
comes to one that is no carrier, after no more steps than there are tables, or it comes into a ring.
-/

set_option autoImplicit false

namespace ConfigScript

namespace Heap

variable {heap : Heap} {value payload last : Value} {name : String} {strict : Bool}

def payload? (heap : Heap) : Value → Option Value
  | .table id =>
    match (heap.table id).shape with
    | .ok (.tagged _ payload) => some payload
    | _ => none
  | _ => none

/-- What is found after some steps from carriers to their payloads. -/
def carried (heap : Heap) : Nat → Value → Option Value
  | 0, value => some value
  | steps + 1, value => (heap.payload? value).bind (heap.carried steps)

/-- Whether a value is found again by following payloads. -/
def OnRing (heap : Heap) (value : Value) : Prop :=
  ∃ steps, heap.carried (steps + 1) value = some value

theorem payload?_of_shape (shaped : value.shape heap strict = .ok (.tagged name payload)) :
    heap.payload? value = some payload := by
  cases value with
  | table id => simp_all [Value.shape, payload?]
  | float x =>
      simp only [Value.shape] at shaped
      split at shaped <;> cases shaped
  | nil | boolean | integer | string | function | foreign =>
      simp only [Value.shape, Except.map] at shaped
      split at shaped <;> cases shaped

theorem exists_shape_of_payload? (strict : Bool) (carries : heap.payload? value = some payload) :
    ∃ name, value.shape heap strict = .ok (.tagged name payload) := by
  unfold payload? at carries
  split at carries
  · next id =>
      split at carries <;> cases carries
      next name shaped => exact ⟨name, shaped⟩
  · cases carries

theorem isPart_of_payload? (carries : heap.payload? value = some payload) :
    heap.IsPart payload value := by
  obtain ⟨name, shaped⟩ := exists_shape_of_payload? false carries
  exact Value.isPart_of_shape shaped (List.mem_singleton_self payload)

theorem carried_add (first second : Nat) (value : Value) :
    heap.carried (first + second) value = (heap.carried first value).bind (heap.carried second) := by
  induction first generalizing value with
  | zero => simp [carried]
  | succ first ih =>
      rw [Nat.add_right_comm]
      cases carries : heap.payload? value with
      | none => simp [carried, carries]
      | some payload => simp [carried, carries, ih]

theorem carried_succ (steps : Nat) (value : Value) :
    heap.carried (steps + 1) value = (heap.carried steps value).bind heap.payload? := by
  rw [carried_add]
  congr
  funext found
  simp only [carried]
  cases heap.payload? found <;> rfl

/-- A value on a ring is a carrier, and its payload is on the ring. -/
theorem OnRing.exists_payload (onRing : heap.OnRing value) :
    ∃ payload, heap.payload? value = some payload ∧ heap.OnRing payload := by
  obtain ⟨steps, found⟩ := onRing
  cases carries : heap.payload? value with
  | none => simp [carried, carries] at found
  | some payload =>
      have returns : heap.carried steps payload = some value := by
        simpa [carried, carries] using found
      exact ⟨payload, rfl, steps, by rw [carried_succ, returns, Option.bind_some, carries]⟩

/-- What payloads lead to is all that the values on the way are taken apart into. -/
theorem acc_of_carried {steps : Nat} (found : heap.carried steps value = some last)
    (finite : Acc heap.IsPart last) : Acc heap.IsPart value := by
  induction steps generalizing value with
  | zero =>
      cases found
      exact finite
  | succ steps ih =>
      cases carries : heap.payload? value with
      | none => simp [carried, carries] at found
      | some payload =>
          have payloadFinite : Acc heap.IsPart payload := ih (by simpa [carried, carries] using found)
          obtain ⟨name, shaped⟩ := exists_shape_of_payload? false carries
          refine ⟨_, fun part isPart => ?_⟩
          cases List.mem_singleton.1 (Value.mem_parts_of_isPart shaped isPart)
          exact payloadFinite

/-- Two different steps that find the same value find one on a ring. -/
private theorem onRing_of_lt {first second : Nat} {found : Value} (order : first < second)
    (early : heap.carried first value = some found)
    (late : heap.carried second value = some found) : heap.OnRing found := by
  obtain ⟨between, rfl⟩ := Nat.exists_eq_add_of_lt order
  rw [Nat.add_assoc, carried_add, early, Option.bind_some] at late
  exact ⟨between, late⟩

/-- Payloads lead to a value that is no carrier, or into a ring. -/
theorem carried_ends_or_onRing (heap : Heap) (value : Value) :
    (∃ steps last, steps ≤ heap.tables.size ∧ heap.carried steps value = some last ∧
      heap.payload? last = none) ∨
      ∃ steps last, heap.carried steps value = some last ∧ heap.OnRing last := by
  by_cases ends : ∃ steps last, steps ≤ heap.tables.size ∧
      heap.carried steps value = some last ∧ heap.payload? last = none
  · exact .inl ends
  right
  have carries : ∀ steps last, steps ≤ heap.tables.size → heap.carried steps value = some last →
      ∃ payload, heap.payload? last = some payload := by
    intro steps last few found
    cases carries : heap.payload? last with
    | none => exact absurd ⟨steps, last, few, found, carries⟩ ends
    | some payload => exact ⟨payload, rfl⟩
  -- One step more than there are tables finds tables only, so two of them are the same.
  have tables : ∀ steps : Fin (heap.tables.size + 1),
      ∃ id : Fin heap.tables.size, heap.carried steps value = some (.table id) := by
    rintro ⟨steps, few⟩
    have found : ∃ last, heap.carried steps value = some last := by
      induction steps with
      | zero => exact ⟨value, rfl⟩
      | succ steps ih =>
          obtain ⟨last, found⟩ := ih (Nat.lt_of_succ_lt few)
          obtain ⟨payload, carried⟩ := carries steps last (by omega) found
          exact ⟨payload, by rw [carried_succ, found, Option.bind_some, carried]⟩
    obtain ⟨last, found⟩ := found
    obtain ⟨payload, carried⟩ := carries steps last (Nat.le_of_lt_succ few) found
    obtain ⟨id, rfl, inside⟩ := (isPart_of_payload? carried).exists_table
    exact ⟨⟨id, inside⟩, found⟩
  choose place found using tables
  obtain ⟨first, second, different, same⟩ :=
    Fintype.exists_ne_map_eq_of_card_lt place (by simp)
  rcases Nat.lt_or_gt_of_ne (Fin.val_ne_of_ne different) with order | order
  · exact ⟨first, _, found first, onRing_of_lt order (found first) (same ▸ found second)⟩
  · exact ⟨second, _, found second, onRing_of_lt order (found second) (same ▸ found first)⟩

end Heap

end ConfigScript
