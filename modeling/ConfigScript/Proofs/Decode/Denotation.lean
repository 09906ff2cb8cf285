import ConfigScript.Proofs.Decode.Parts
import ConfigScript.Proofs.Json

/-!
# What a tree of events denotes

Every well-formed sequence of events is read as a value of any form: the tree that it presents, with
scalars told apart by their texts. The reader takes the events of the tree and nothing behind them.
As JSON, a tree keeps one member for each key of an object, the last.
-/

set_option autoImplicit false

namespace ConfigScript

namespace Tree

mutual

/-- The value of any form that a tree presents. A tagged value is a map of one entry. -/
def toUntyped : Tree → Untyped
  | .primitive text => .infer text
  | .tagged name payload => .map [(name, payload.toUntyped)]
  | .object entries => .map (entriesToUntyped entries)
  | .array items => .list (itemsToUntyped items)

def entriesToUntyped : List (String × Tree) → List (String × Untyped)
  | [] => []
  | (key, value) :: rest => (key, value.toUntyped) :: entriesToUntyped rest

def itemsToUntyped : List Tree → List Untyped
  | [] => []
  | value :: rest => value.toUntyped :: itemsToUntyped rest

end

theorem itemsToUntyped_eq_map (items : List Tree) : itemsToUntyped items = items.map toUntyped := by
  induction items with
  | nil => rfl
  | cons item rest ih => rw [itemsToUntyped, ih, List.map_cons]

theorem entriesToUntyped_eq_map (entries : List (String × Tree)) :
    entriesToUntyped entries = entries.map fun entry => (entry.1, entry.2.toUntyped) := by
  induction entries with
  | nil => rfl
  | cons entry rest ih => rw [entriesToUntyped, ih, List.map_cons]

end Tree

namespace Untyped

theorem itemsToJson_eq_map (items : List Untyped) : itemsToJson items = items.map toJson := by
  induction items with
  | nil => rfl
  | cons item rest ih => rw [itemsToJson, ih, List.map_cons]

theorem entriesToJson_eq_map (entries : List (String × Untyped)) :
    entriesToJson entries = entries.map fun entry => (entry.1, entry.2.toJson) := by
  induction entries with
  | nil => rfl
  | cons entry rest ih => rw [entriesToJson, ih, List.map_cons]

end Untyped

namespace Tree

/-- The JSON that a tree reads as. -/
def toJson (tree : Tree) : Json :=
  tree.toUntyped.toJson

theorem toJson_tagged (name : String) (payload : Tree) :
    (tagged name payload).toJson = .object [(name, payload.toJson)] :=
  rfl

theorem toJson_array (items : List Tree) : (array items).toJson = .array (items.map toJson) := by
  rw [toJson, toUntyped, Untyped.toJson, itemsToUntyped_eq_map, Untyped.itemsToJson_eq_map,
    List.map_map]
  rfl

theorem toJson_object (entries : List (String × Tree)) :
    (object entries).toJson =
      Json.ofMembers (entries.map fun entry => (entry.1, entry.2.toJson)) := by
  rw [toJson, toUntyped, Untyped.toJson, entriesToUntyped_eq_map, Untyped.entriesToJson_eq_map,
    List.map_map]
  rfl

/-- The JSON that a tree stands for, told by what is found in it. An object has the last entry of
each key, and a tagged value is an object of one member. -/
inductive Denotes : Tree → Json → Prop
  | primitive (text : String) : Denotes (.primitive text) (Untyped.infer text).toJson
  | tagged (name : String) {payload : Tree} {json : Json} (denotes : Denotes payload json) :
      Denotes (.tagged name payload) (.object [(name, json)])
  | object {entries : List (String × Tree)} {members : List (String × Json)}
      (increasing : Json.Increasing members)
      (last : ∀ key, Option.Rel Denotes (entries.reverse.lookup key) (members.lookup key)) :
      Denotes (.object entries) (.object members)
  | array {items : List Tree} {jsons : List Json} (denote : List.Forall₂ Denotes items jsons) :
      Denotes (.array items) (.array jsons)

/-- What a tree stands for is what it reads as. -/
theorem denotes_iff (tree : Tree) (json : Json) : tree.Denotes json ↔ tree.toJson = json := by
  induction tree generalizing json with
  | primitive text =>
      constructor
      · intro denotes
        cases denotes
        rfl
      · rintro rfl
        exact .primitive text
  | tagged name payload ih =>
      constructor
      · intro denotes
        cases denotes with
        | tagged _ inside =>
            obtain rfl := (ih _).1 inside
            rfl
      · rintro rfl
        exact .tagged name ((ih _).2 rfl)
  | object entries ih =>
      have found : ∀ key json, Option.Rel Denotes (entries.reverse.lookup key) json ↔
          (entries.map fun entry => (entry.1, entry.2.toJson)).reverse.lookup key = json := by
        intro key json
        rw [← List.map_reverse, lookup_map]
        refine optionRel_iff_map_eq (fun value found => ?_) json
        have member : (key, value) ∈ entries := List.mem_reverse.1 (mem_of_lookup found)
        exact ih (key, value) member
      rw [toJson_object]
      constructor
      · intro denotes
        cases denotes with
        | object increasing last =>
            refine Json.ofMembers_eq_iff.2 ⟨increasing, fun key => ?_⟩
            exact ((found key _).1 (last key)).symm
      · obtain ⟨members, shape, increasing, last⟩ := Json.exists_ofMembers_eq
          (entries.map fun entry => (entry.1, entry.2.toJson))
        rw [shape]
        rintro rfl
        exact .object increasing fun key => (found key _).2 (last key).symm
  | array items ih =>
      have denote := fun jsons =>
        forall₂_iff_map_eq ih jsons
      rw [toJson_array]
      constructor
      · intro denotes
        cases denotes with
        | array inside => rw [(denote _).1 inside]
      · rintro rfl
        exact .array ((denote _).2 rfl)

/-- A tag under a key, and two entries of one key. -/
example : (object [("port", .primitive "80"), ("host", .tagged "name" (.primitive "local")),
    ("port", .primitive "on")]).toJson =
      .object [("host", .object [("name", .string "local")]), ("port", .string "on")] := by
  rfl

end Tree

namespace Reader

variable {ε : Type}

theorem mapM_ok {α β : Type} {round : α → Except Cause β} (f : α → β) {values : List α}
    (known : ∀ value, round value = .ok (f value)) : values.mapM round = .ok (values.map f) := by
  induction values with
  | nil => rfl
  | cons value rest ih =>
      rw [List.mapM_cons, ih, known]
      rfl

/-- The events of a tree are read as what it denotes. -/
theorem takes_untyped (tree : Tree) :
    Takes (untyped : Reader ε Untyped) tree.events (.ok tree.toUntyped) := by
  induction tree with
  | primitive text =>
      rw [untyped_eq]
      exact Takes.next_bind (.of_pure _)
  | tagged name payload ih =>
      rw [untyped_eq]
      exact Takes.next_bind (ih.map fun value => Untyped.map [(name, value)])
  | object trees ih =>
      have denoted : TakesUpTo .objectClose (entries .ok untyped : Reader ε _)
          (Tree.entriesEvents trees) (.ok (Tree.entriesToUntyped trees)) := by
        rw [Tree.entriesToUntyped_eq_map]
        exact (TakesUpTo.entries TakesValue.untyped (fun tree => .ok tree.toUntyped) ih).of_eq
          (mapM_ok _ fun _ => rfl)
      rw [untyped_eq]
      exact Takes.next_bind (denoted.expect_map Untyped.map)
  | array trees ih =>
      have denoted : TakesUpTo .arrayClose (elements untyped : Reader ε _)
          (Tree.itemsEvents trees) (.ok (Tree.itemsToUntyped trees)) := by
        rw [Tree.itemsToUntyped_eq_map]
        exact (TakesUpTo.elements TakesValue.untyped ih).of_eq (mapM_ok _ fun _ => rfl)
      rw [untyped_eq]
      exact Takes.next_bind (denoted.expect_map Untyped.list)

end Reader

end ConfigScript
