import ConfigScript.Json
import ConfigScript.Proofs.Value.Table
import Mathlib.Data.List.Forall2

/-!
# The content of a configuration

Data in the form of JSON, with tagged parts, and how scripts hold them: a list as a table of
positions, an object as a table of texts, a tagged part as a carrier. The same content can be held
by several tables, which list their entries in any order.
-/

set_option autoImplicit false

namespace ConfigScript

inductive Content where
  | null
  | boolean (value : Bool)
  | integer (value : Int64)
  | text (value : String)
  | array (items : List Content)
  | object (members : List (String × Content))
  | tagged (name : String) (payload : Content)

namespace Content

/-- A text that begins like a number, perhaps with a sign in front. -/
def beginsNumber (text : String) : Bool :=
  let unsigned := if text.toList.head? = some '-' then text.toList.tail else text.toList
  unsigned.head?.any Number.isDigit

/-- A text that is not taken for another scalar. -/
def IsWord (text : String) : Prop :=
  text ∉ ["null", "true", "false"] ∧ beginsNumber text = false

/-- Content that is not mistaken for anything else when everything is text. Null stands only where
it is `nullable`: a table holds no null, but a carrier may go without a payload. -/
inductive Plain : Bool → Content → Prop
  | null : Plain true .null
  | boolean {nullable : Bool} (value : Bool) : Plain nullable (.boolean value)
  | integer {nullable : Bool} (value : Int64) : Plain nullable (.integer value)
  | text {nullable : Bool} {value : String} (word : IsWord value) : Plain nullable (.text value)
  | array {nullable : Bool} {items : List Content} (some : items ≠ [])
      (plain : ∀ item ∈ items, Plain false item) : Plain nullable (.array items)
  | object {nullable : Bool} {members : List (String × Content)}
      (distinct : (members.map (·.1)).Nodup) (untagged : "_type" ∉ members.map (·.1))
      (plain : ∀ member ∈ members, Plain false member.2) : Plain nullable (.object members)
  | tagged {nullable : Bool} (name : String) {payload : Content} (plain : Plain true payload) :
      Plain nullable (.tagged name payload)

/-- Members in the order of their keys. -/
def memberLE (first second : String × Json) : Bool :=
  first.1 ≤ second.1

mutual

/-- The content as JSON, a tagged part as an object of one member. -/
def toJson : Content → Json
  | .null => .null
  | .boolean value => .bool value
  | .integer value => .integer value.toInt
  | .text value => .string value
  | .array items => .array (itemsToJson items)
  | .object members => .object ((membersToJson members).mergeSort memberLE)
  | .tagged name payload => .object [(name, payload.toJson)]

def itemsToJson : List Content → List Json
  | [] => []
  | item :: rest => item.toJson :: itemsToJson rest

def membersToJson : List (String × Content) → List (String × Json)
  | [] => []
  | (key, value) :: rest => (key, value.toJson) :: membersToJson rest

end

theorem itemsToJson_eq_map (items : List Content) : itemsToJson items = items.map toJson := by
  induction items with
  | nil => rfl
  | cons item rest ih => rw [itemsToJson, ih, List.map_cons]

theorem membersToJson_eq_map (members : List (String × Content)) :
    membersToJson members = members.map fun member => (member.1, member.2.toJson) := by
  induction members with
  | nil => rfl
  | cons member rest ih => rw [membersToJson, ih, List.map_cons]

end Content

/-- Whether a value of a heap holds some content. -/
inductive Heap.Holds (heap : Heap) : Value → Content → Prop
  | null : Holds heap .nil .null
  | boolean (value : Bool) : Holds heap (.boolean value) (.boolean value)
  | integer (value : Int64) : Holds heap (.integer value) (.integer value)
  | text (value : String) : Holds heap (.ofText value) (.text value)
  | array {id : TableId} {values : List Value} {items : List Content}
      (lists : (heap.table id).Lists values) (held : List.Forall₂ (Holds heap) values items) :
      Holds heap (.table id) (.array items)
  | object {id : TableId} {values : List Value} {members : List (String × Content)}
      (order : (heap.table id).entries.Perm ((members.map (Value.ofText ·.1)).zip values))
      (held : List.Forall₂ (Holds heap) values (members.map (·.2))) :
      Holds heap (.table id) (.object members)
  | tagged {id : TableId} {name : String} {value : Value} {payload : Content}
      (order : (heap.table id).entries.Perm (carrier name value).entries)
      (held : Holds heap value payload) : Holds heap (.table id) (.tagged name payload)

end ConfigScript
