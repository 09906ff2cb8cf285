import ConfigScript.Json
import ConfigScript.Proofs.Association
import Mathlib.Data.String.Basic

/-!
# Objects by their keys

What is found under each key of an object, and that this says which object it is: members stand in
increasing order of their keys, and of the members that are given for one key the last is kept.
-/

set_option autoImplicit false

namespace ConfigScript

namespace Json

variable {members listed : List (String × Json)} {key : String} {value : Json}

/-- Members in increasing order of their keys. -/
def Increasing (members : List (String × Json)) : Prop :=
  members.Pairwise fun first second => first.1 < second.1

theorem lookup_insert (name : String) : (insert key value members).lookup name =
    if name = key then some value else members.lookup name := by
  induction members with
  | nil => exact lookup_cons_eq_ite (key, value)
  | cons member rest ih =>
      rw [insert]
      cases order : compare key member.1 with
      | lt => exact lookup_cons_eq_ite (key, value)
      | eq =>
          have same : key = member.1 := compare_eq_iff_eq.1 order
          simp only [lookup_cons_eq_ite, same]
          split <;> rfl
      | gt =>
          have above : member.1 < key := compare_gt_iff_gt.1 order
          simp only [lookup_cons_eq_ite, ih]
          split
          · next same => rw [if_neg (same ▸ above.ne)]
          · rfl

theorem mem_insert {member : String × Json} (inserted : member ∈ insert key value members) :
    member = (key, value) ∨ member ∈ members := by
  induction members with
  | nil => exact .inl (List.mem_singleton.1 inserted)
  | cons first rest ih =>
      rw [insert] at inserted
      split at inserted
      · exact List.mem_cons.1 inserted
      · exact (List.mem_cons.1 inserted).imp_right (List.mem_cons_of_mem _)
      · cases List.mem_cons.1 inserted with
        | inl same => exact .inr (same ▸ List.mem_cons_self)
        | inr later => exact (ih later).imp_right (List.mem_cons_of_mem _)

namespace Increasing

theorem insert (increasing : Increasing members) (key : String) (value : Json) :
    Increasing (insert key value members) := by
  induction members with
  | nil => exact List.pairwise_singleton _ _
  | cons first rest ih =>
      obtain ⟨least, increasingRest⟩ := List.pairwise_cons.1 increasing
      rw [Json.insert]
      cases order : compare key first.1 with
      | lt =>
          have below : key < first.1 := compare_lt_iff_lt.1 order
          refine List.pairwise_cons.2 ⟨fun member later => ?_, increasing⟩
          cases List.mem_cons.1 later with
          | inl same => exact same ▸ below
          | inr later => exact below.trans (least member later)
      | eq =>
          obtain rfl : key = first.1 := compare_eq_iff_eq.1 order
          exact List.pairwise_cons.2 ⟨least, increasingRest⟩
      | gt =>
          have above : first.1 < key := compare_gt_iff_gt.1 order
          refine List.pairwise_cons.2 ⟨fun member later => ?_, ih increasingRest⟩
          cases mem_insert later with
          | inl same => exact same ▸ above
          | inr later => exact least member later

/-- Inserting members one after another keeps the last of each key. -/
theorem foldl_insert (increasing : Increasing listed) (members : List (String × Json)) :
    let inserted := members.foldl (fun sorted member => Json.insert member.1 member.2 sorted) listed
    Increasing inserted ∧
      ∀ key, inserted.lookup key = (members.reverse ++ listed).lookup key := by
  induction members generalizing listed with
  | nil => exact ⟨increasing, fun _ => rfl⟩
  | cons member rest ih =>
      obtain ⟨increasingRest, found⟩ := ih (increasing.insert member.1 member.2)
      refine ⟨increasingRest, fun key => (found key).trans ?_⟩
      rw [List.reverse_cons, List.append_assoc, List.lookup_append, List.lookup_append,
        lookup_insert, List.singleton_append, lookup_cons_eq_ite]

end Increasing

theorem exists_ofMembers_eq (members : List (String × Json)) :
    ∃ sorted, ofMembers members = .object sorted ∧ Increasing sorted ∧
      ∀ key, sorted.lookup key = members.reverse.lookup key := by
  have nothing : Increasing [] := .nil
  obtain ⟨increasing, found⟩ := nothing.foldl_insert members
  refine ⟨_, rfl, increasing, fun key => (found key).trans ?_⟩
  rw [List.append_nil]

/-- The object of some members is the one that has the last of each key. -/
theorem ofMembers_eq_iff : ofMembers members = .object listed ↔
    Increasing listed ∧ ∀ key, listed.lookup key = members.reverse.lookup key := by
  obtain ⟨sorted, shape, increasing, found⟩ := exists_ofMembers_eq members
  rw [shape]
  constructor
  · intro same
    cases same
    exact ⟨increasing, found⟩
  · intro described
    obtain ⟨listedIncreasing, listedFound⟩ := described
    have same : sorted = listed := eq_of_lookup increasing listedIncreasing fun key =>
      (found key).trans (listedFound key).symm
    exact congrArg Json.object same

/-- Members of distinct keys make the same object in any order. -/
theorem ofMembers_eq_of_perm (distinct : (members.map (·.1)).Nodup) (order : listed.Perm members) :
    ofMembers listed = ofMembers members := by
  obtain ⟨sorted, shape, increasing, found⟩ := exists_ofMembers_eq members
  rw [shape, ofMembers_eq_iff]
  refine ⟨increasing, fun key => ?_⟩
  have backwards : listed.reverse.Perm members.reverse :=
    listed.reverse_perm.trans (order.trans members.reverse_perm.symm)
  rw [found, lookup_of_perm ?_ backwards]
  rwa [List.map_reverse, List.nodup_reverse]

end Json

end ConfigScript
