import ConfigScript.Proofs.Association
import ConfigScript.Proofs.Decode.Interpretation
import Mathlib.Data.List.ReduceOption

/-!
# The entries of a record

A record goes through the entries of an object one after another and keeps the fields found so far.
When the keys are distinct, no field is met twice, so each entry can be looked at on its own.
-/

set_option autoImplicit false

namespace ConfigScript

namespace Tree

/-- The field that an entry is, if it is one. -/
def field? (fields : List (String × Interpretation)) (closed : Bool) (entry : String × Tree) :
    Except Cause (Option (String × Datum)) :=
  match fields.lookup entry.1 with
  | some field => (field entry.2).map fun value => some (entry.1, value)
  | none => if closed then .error (.unknownField entry.1 (fields.map (·.1))) else .ok none

variable {fields : List (String × Interpretation)} {closed : Bool}

theorem ofField_eq {found : List (String × Datum)} {entry : String × Tree}
    (fresh : entry.1 ∉ found.map (·.1)) :
    ofField fields closed found entry =
      (field? fields closed entry).map fun field => field.toList ++ found := by
  unfold ofField field?
  cases fields.lookup entry.1 with
  | none => cases closed <;> rfl
  | some field =>
      simp only [lookup_of_not_mem fresh]
      cases field entry.2 <;> rfl

theorem key_of_field? {entry : String × Tree} {field : String × Datum}
    (known : field? fields closed entry = .ok (some field)) : field.1 = entry.1 := by
  unfold field? at known
  cases part : fields.lookup entry.1 with
  | none =>
      rw [part] at known
      cases closed <;> cases known
  | some interpretation =>
      rw [part] at known
      cases read : interpretation entry.2 with
      | error cause =>
          simp only [read] at known
          cases known
      | ok value =>
          simp only [read] at known
          cases known
          rfl

/-- Entries of distinct keys are fields independently of each other. -/
theorem foldlM_ofField {entries : List (String × Tree)} (distinct : (entries.map (·.1)).Nodup)
    {found : List (String × Datum)} (fresh : ∀ key ∈ entries.map (·.1), key ∉ found.map (·.1)) :
    entries.foldlM (ofField fields closed) found =
      (entries.mapM (field? fields closed)).map fun parts =>
        parts.reduceOption.reverse ++ found := by
  induction entries generalizing found with
  | nil => rfl
  | cons entry rest ih =>
      obtain ⟨freshEntry, freshRest⟩ := List.forall_mem_cons.1 fresh
      obtain ⟨absent, distinctRest⟩ := List.nodup_cons.1 distinct
      rw [List.foldlM_cons, List.mapM_cons, ofField_eq freshEntry]
      cases known : field? fields closed entry with
      | error cause => rfl
      | ok field =>
          have freshNext : ∀ key ∈ rest.map (·.1), key ∉ (field.toList ++ found).map (·.1) := by
            intro key member
            cases field with
            | none => exact freshRest key member
            | some field =>
                rw [Option.toList_some, List.singleton_append, List.map_cons, List.mem_cons, not_or]
                refine ⟨fun same => ?_, freshRest key member⟩
                have known : key = entry.1 := same.trans (key_of_field? known)
                exact absent (known ▸ member : entry.1 ∈ _)
          change rest.foldlM (ofField fields closed) (field.toList ++ found) = _
          rw [ih distinctRest freshNext]
          cases rest.mapM (field? fields closed) with
          | error cause => rfl
          | ok parts =>
              refine congrArg Except.ok ?_
              cases field with
              | none => rfl
              | some field =>
                  simp only [List.reduceOption_cons_of_some, List.reverse_cons, List.append_assoc]
                  rfl

theorem keys_sublist_of_mapM {entries : List (String × Tree)}
    {parts : List (Option (String × Datum))}
    (known : entries.mapM (field? fields closed) = .ok parts) :
    (parts.reduceOption.map (·.1)).Sublist (entries.map (·.1)) := by
  induction entries generalizing parts with
  | nil =>
      cases known
      exact .refl _
  | cons entry rest ih =>
      rw [List.mapM_cons] at known
      cases part : field? fields closed entry with
      | error cause =>
          rw [part] at known
          cases known
      | ok field =>
          cases others : rest.mapM (field? fields closed) with
          | error cause =>
              rw [part, others] at known
              cases known
          | ok parts =>
              rw [part, others] at known
              cases known
              cases field with
              | none => exact (ih others).cons _
              | some field =>
                  have key := key_of_field? part
                  rw [List.reduceOption_cons_of_some, List.map_cons, List.map_cons, key]
                  exact (ih others).cons_cons _

end Tree

end ConfigScript
