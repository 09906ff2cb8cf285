import ConfigScript.Datum
import ConfigScript.Proofs.Association

/-!
# Data up to the order of entries

The entries of a map stand in the order in which they were met. Data that are alike differ in this
order only, so they are equal where there is no map.
-/

set_option autoImplicit false

namespace ConfigScript

/-- Values that differ only in the order of the entries of maps. -/
inductive Untyped.Reordered : Untyped → Untyped → Prop
  | refl (value : Untyped) : Reordered value value
  | list {items others : List Untyped} (each : List.Forall₂ Reordered items others) :
      Reordered (.list items) (.list others)
  | map {entries listed others : List (String × Untyped)}
      (keys : entries.map (·.1) = listed.map (·.1))
      (values : List.Forall₂ Reordered (entries.map (·.2)) (listed.map (·.2)))
      (order : listed.Perm others) : Reordered (.map entries) (.map others)

mutual

/-- Whether there is a map in a value, whose entries are in some order. -/
def Untyped.hasMap : Untyped → Bool
  | .map _ => true
  | .list items => anyHasMap items
  | _ => false

def Untyped.anyHasMap : List Untyped → Bool
  | [] => false
  | value :: rest => value.hasMap || anyHasMap rest

end

mutual

/-- Whether there is a map in a datum, whose entries are in some order. -/
def Datum.hasMap : Datum → Bool
  | .map _ => true
  | .untyped value => value.hasMap
  | .some value | .wrapped value | .variant _ value => value.hasMap
  | .list items => anyHasMap items
  | .record fields => fieldsHaveMap fields
  | _ => false

def Datum.anyHasMap : List Datum → Bool
  | [] => false
  | value :: rest => value.hasMap || anyHasMap rest

def Datum.fieldsHaveMap : List (String × Datum) → Bool
  | [] => false
  | (_, value) :: rest => value.hasMap || fieldsHaveMap rest

end

mutual

theorem Untyped.Reordered.eq_of_not_hasMap {value other : Untyped} (alike : Reordered value other)
    (plain : value.hasMap = false) : value = other := by
  cases value with
  | map entries => cases plain
  | list items =>
      cases alike with
      | refl => rfl
      | list each => rw [eq_of_not_anyHasMap each plain]
  | null | bool | integer | natural | float | text =>
      cases alike
      rfl

theorem Untyped.Reordered.eq_of_not_anyHasMap {items others : List Untyped}
    (each : List.Forall₂ Reordered items others) (plain : Untyped.anyHasMap items = false) :
    items = others := by
  match items, others, each with
  | [], [], .nil => rfl
  | value :: rest, _ :: _, .cons alike each =>
      rw [Untyped.anyHasMap, Bool.or_eq_false_iff] at plain
      rw [alike.eq_of_not_hasMap plain.1, eq_of_not_anyHasMap each plain.2]

end

theorem Untyped.Reordered.of_unordered {entries others : List (String × Untyped)}
    (unordered : Unordered Reordered entries others) :
    Reordered (.map entries) (.map others) := by
  obtain ⟨listed, keyed, order⟩ := unordered
  exact .map keyed.map_key keyed.map_value order

/-- Data that differ only in the order of the entries of maps. -/
inductive Datum.Reordered : Datum → Datum → Prop
  | refl (datum : Datum) : Reordered datum datum
  | untyped {value other : Untyped} (alike : value.Reordered other) :
      Reordered (.untyped value) (.untyped other)
  | some {value other : Datum} (alike : Reordered value other) :
      Reordered (.some value) (.some other)
  | wrapped {value other : Datum} (alike : Reordered value other) :
      Reordered (.wrapped value) (.wrapped other)
  | variant (name : String) {payload other : Datum} (alike : Reordered payload other) :
      Reordered (.variant name payload) (.variant name other)
  | list {items others : List Datum} (each : List.Forall₂ Reordered items others) :
      Reordered (.list items) (.list others)
  | record {fields others : List (String × Datum)} (names : fields.map (·.1) = others.map (·.1))
      (values : List.Forall₂ Reordered (fields.map (·.2)) (others.map (·.2))) :
      Reordered (.record fields) (.record others)
  | map {entries listed others : List (Datum × Datum)}
      (keys : entries.map (·.1) = listed.map (·.1))
      (values : List.Forall₂ Reordered (entries.map (·.2)) (listed.map (·.2)))
      (order : listed.Perm others) : Reordered (.map entries) (.map others)

namespace Datum.Reordered

mutual

/-- Without a map, data that are alike are equal. -/
theorem eq_of_not_hasMap {datum other : Datum} (alike : Reordered datum other)
    (plain : datum.hasMap = false) : datum = other := by
  cases datum with
  | map entries => cases plain
  | untyped value =>
      cases alike with
      | refl => rfl
      | untyped alike => rw [alike.eq_of_not_hasMap plain]
  | some value =>
      cases alike with
      | refl => rfl
      | some alike => rw [eq_of_not_hasMap alike plain]
  | wrapped value =>
      cases alike with
      | refl => rfl
      | wrapped alike => rw [eq_of_not_hasMap alike plain]
  | variant name payload =>
      cases alike with
      | refl => rfl
      | variant _ alike => rw [eq_of_not_hasMap alike plain]
  | list items =>
      cases alike with
      | refl => rfl
      | list each => rw [eq_of_not_anyHasMap each plain]
  | record fields =>
      cases alike with
      | refl => rfl
      | record names values =>
          rw [eq_of_not_fieldsHaveMap (.of_map names values) plain]
  | bool | integer | single | double | char | text | bytes | unit | ignored | json | none
  | default =>
      cases alike
      rfl

theorem eq_of_not_anyHasMap {items others : List Datum}
    (each : List.Forall₂ Reordered items others) (plain : Datum.anyHasMap items = false) :
    items = others := by
  match items, others, each with
  | [], [], .nil => rfl
  | value :: rest, _ :: _, .cons alike each =>
      rw [Datum.anyHasMap, Bool.or_eq_false_iff] at plain
      rw [alike.eq_of_not_hasMap plain.1, eq_of_not_anyHasMap each plain.2]

theorem eq_of_not_fieldsHaveMap {fields others : List (String × Datum)}
    (keyed : Keyed Reordered fields others) (plain : Datum.fieldsHaveMap fields = false) :
    fields = others := by
  match fields, others, keyed with
  | [], [], .nil => rfl
  | (name, value) :: rest, (_, other) :: _, .cons ⟨same, alike⟩ keyed =>
      rw [Datum.fieldsHaveMap, Bool.or_eq_false_iff] at plain
      obtain rfl : name = _ := same
      obtain rfl : value = other := eq_of_not_hasMap alike plain.1
      rw [eq_of_not_fieldsHaveMap keyed plain.2]

end

theorem of_unordered {entries others : List (Datum × Datum)}
    (unordered : Unordered Reordered entries others) : Reordered (.map entries) (.map others) := by
  obtain ⟨listed, keyed, order⟩ := unordered
  exact .map keyed.map_key keyed.map_value order

theorem of_keyed {fields others : List (String × Datum)} (keyed : Keyed Reordered fields others) :
    Reordered (.record fields) (.record others) :=
  .record keyed.map_key keyed.map_value

end Datum.Reordered

end ConfigScript
