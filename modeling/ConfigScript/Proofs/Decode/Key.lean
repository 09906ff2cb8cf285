import ConfigScript.Proofs.Decode.Agreement
import ConfigScript.Proofs.Decode.Outcome

/-!
# Keys are read like primitives

A key of a map is a text on its own and is read by rules of its own. They accept the same texts as
reading the primitive of that text from a stream does, and give the same data: what needs more than
one text is refused either way, for other reasons.
-/

set_option autoImplicit false

namespace ConfigScript

namespace Schema

/-- Null is the only text that is nothing, whatever the words for the others. -/
theorem unitText_eq_ok_iff {text expected : String} {datum : Datum} :
    readText.unitText text expected = .ok datum ↔
      (Tree.primitive text).ofNothing.map (fun _ => Datum.unit) = .ok datum := by
  rw [readText.unitText, Tree.ofNothing]
  split
  · exact Iff.rfl
  · simp [Except.map]

/-- The text of a key is read as what a schema makes of its primitive. -/
theorem readText_eq_ok_iff (schema : Schema) {text : String} {datum : Datum} :
    readText text schema = .ok datum ↔ schema.interpret (.primitive text) = .ok datum := by
  cases schema with
  | bool | integer | single | double | char | text | identifier | bytes | ignored | untyped | json
    | enumeration =>
      simp only [interpret]
      rfl
  | unit | namedUnit =>
      simp only [interpret, readText]
      exact unitText_eq_ok_iff
  | option of =>
      simp only [interpret, readText, Tree.opening, Event.primitive.injEq]
      split
      · exact Iff.rfl
      · simp only [map_eq_ok_iff, readText_eq_ok_iff of]
  | wrapper name of =>
      simp only [interpret, readText, map_eq_ok_iff, readText_eq_ok_iff of]
  | seq | tuple | namedTuple | map | record =>
      simp only [interpret, readText]
      constructor
      · intro read
        cases read
      · intro read
        cases read

/-- A map is read entry by entry, each key as the primitive of its text. -/
theorem interpret_map_eq_ok_iff (key value : Schema) {entries : List (String × Tree)}
    {datum : Datum} :
    (Schema.map key value).interpret (.object entries) = .ok datum ↔
      ∃ members, List.Forall₂ (fun member entry =>
          key.interpret (.primitive entry.1) = .ok member.1 ∧
            value.interpret entry.2 = .ok member.2) members entries ∧
        Datum.map members = datum := by
  have entryRead : ∀ (member : Datum × Datum) (entry : String × Tree),
      (do return (← readText entry.1 key, ← value.interpret entry.2)) = Except.ok member ↔
        key.interpret (.primitive entry.1) = .ok member.1 ∧
          value.interpret entry.2 = .ok member.2 := by
    intro member entry
    rw [← readText_eq_ok_iff]
    cases readText entry.1 key with
    | error cause => simp [bind, Except.bind]
    | ok name =>
        cases value.interpret entry.2 with
        | error cause => simp [bind, Except.bind]
        | ok content => simp [bind, Except.bind, pure, Except.pure, Prod.ext_iff]
  rw [interpret, map_eq_ok_iff]
  simp only [Tree.ofMap, Tree.ofObject, mapM_eq_ok_iff, entryRead]

end Schema

variable {ε : Type}

theorem decode_primitive_eq_ok_iff {schema : Schema} {text : String} {place : Path}
    {datum : Datum} : decode schema [(.ok (.primitive text, place) : Item ε)] = .ok datum ↔
      schema.readText text = .ok datum := by
  have shape : [(Event.primitive text, place)].map (·.1) = (Tree.primitive text).events := rfl
  rw [schema.readText_eq_ok_iff]
  exact decode_eq_ok_iff_of_events shape

/-- A key is read as a datum exactly when the primitive of its text is, as the whole of a stream and
wherever it stands. So a map is read from its entries, each key as if its text were a primitive. -/
theorem decode_of_key (key : Schema) :
    (∀ (text : String) (place : Path) (datum : Datum), key.readText text = .ok datum ↔
      decode key [(.ok (.primitive text, place) : Item ε)] = .ok datum) ∧
    ∀ (value : Schema) (path : Path) (entries : List (String × Tree)) (datum : Datum),
      decode (.map key value) (path.items (Tree.object entries).events : List (Item ε)) =
          .ok datum ↔
        ∃ members, List.Forall₂ (fun member entry =>
            decode key (path.items [.primitive entry.1] : List (Item ε)) = .ok member.1 ∧
              decode value (path.items entry.2.events : List (Item ε)) = .ok member.2)
            members entries ∧
          Datum.map members = datum := by
  refine ⟨fun text place datum => ?_, fun value path entries datum => ?_⟩
  · rw [decode_primitive_eq_ok_iff]
  · rw [decode_eq_ok_iff, Schema.interpret_map_eq_ok_iff]
    have keyRead : ∀ (text : String) (name : Datum),
        decode key (path.items [.primitive text] : List (Item ε)) = .ok name ↔
          key.interpret (.primitive text) = .ok name := by
      intro text name
      change decode key (path.items (Tree.primitive text).events : List (Item ε)) = .ok name ↔ _
      exact decode_eq_ok_iff
    simp only [keyRead, decode_eq_ok_iff]

end ConfigScript
