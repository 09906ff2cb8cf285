import ConfigScript.Decode
import ConfigScript.Proofs.Decode.Untyped

/-!
# Schemas read one value

Whatever the schema, its reader is local, consumes an event when it succeeds and begins by looking
at one. So some events either settle what a stream is that begins with them, or all of them are
pulled and the reader asks for more.
-/

set_option autoImplicit false

namespace ConfigScript

namespace Reader

variable {ε α β κ : Type} {bound : Nat} {reader : Reader ε α} {following : α → Reader ε β}

/-- A reader that takes one value from a stream. -/
structure TakesValue (reader : Reader ε α) : Prop where
  isLocal : IsLocal reader
  advances : Advances (fun _ => True) reader
  looks : Looks reader

namespace TakesValue

theorem of_next_bind {following : Event → Reader ε α}
    (back : ∀ event, IsLocal (following event)) : TakesValue (next >>= following) where
  isLocal _ := Local.of_next.bind fun event => back event _
  advances := Advances.of_next.bind (IsLocal.steady fun _ => .of_next) fun event =>
    (back event).steady
  looks := Looks.of_next.bind following

theorem bind (takes : TakesValue reader) (back : ∀ value, IsLocal (following value)) :
    TakesValue (reader >>= following) where
  isLocal _ := (takes.isLocal _).bind fun value => back value _
  advances := takes.advances.bind takes.isLocal.steady fun value => (back value).steady
  looks := takes.looks.bind following

theorem primitive (expected : String) : TakesValue (primitive expected : Reader ε String) :=
  of_next_bind fun event _ => by
    split
    · exact .of_pure _
    · exact .of_fail _

theorem empty : TakesValue (empty : Reader ε Unit) :=
  of_next_bind fun event _ => by
    split
    · split
      · exact .of_pure ()
      · exact .of_fail _
    · exact .expect _
    · exact .of_fail _

theorem skip : TakesValue (skip : Reader ε Unit) where
  isLocal _ := .skip
  advances := .skip
  looks := (Looks.iterate (fun _ => Looks.of_next.bind _) 0).bind _

theorem untyped : TakesValue (untyped : Reader ε Untyped) :=
  ⟨.untyped, .untyped, .untyped⟩

theorem sequence {elements : Reader ε α} (isLocal : IsLocal elements) (empty : Except Cause α) :
    TakesValue (sequence elements empty) :=
  of_next_bind fun event _ => by
    split
    · exact (isLocal _).bind fun _ => (Local.expect _).bind fun _ => .of_pure _
    · exact (Local.expect _).bind fun _ => .of_except _
    · exact .of_fail _

theorem object {entries : Reader ε α} (isLocal : IsLocal entries) : TakesValue (object entries) :=
  of_next_bind fun event _ => by
    split
    · exact (isLocal _).bind fun _ => (Local.expect _).bind fun _ => .of_pure _
    · exact .of_fail _

theorem places (expected : String) {items : List (Reader ε α)}
    (takes : ∀ item ∈ items, TakesValue item) (position : Nat) :
    IsLocal (places expected items position) := by
  intro bound
  induction items generalizing position with
  | nil => exact .of_pure []
  | cons item rest ih =>
      obtain ⟨takesItem, takesRest⟩ := List.forall_mem_cons.1 takes
      refine (takesItem.isLocal bound).nextElement.bind fun next => ?_
      cases next with
      | none => exact .of_fail _
      | some value => exact (ih takesRest _).bind fun _ => .of_pure _

theorem tuple (expected : String) {items : List (Reader ε Datum)}
    (takes : ∀ item ∈ items, TakesValue item) : TakesValue (tuple expected items) :=
  sequence (fun bound => (places expected takes 0 bound).bind fun _ => .of_pure _) _

theorem fieldValue {fields : List (FieldReader ε)}
    (takes : ∀ field ∈ fields, TakesValue field.read) (closed : Bool)
    (found : List (String × Datum)) (name : String) :
    IsLocal (fieldValue fields closed found name) := by
  intro bound
  unfold Reader.fieldValue
  split
  · next field known =>
      split
      · exact .of_fail _
      · exact ((takes field (List.mem_of_find?_eq_some known)).isLocal bound).bind
          fun _ => .of_pure _
  · split
    · exact .of_fail _
    · exact Local.skip.bind fun _ => .of_pure _

theorem nextField_advances {fields : List (FieldReader ε)}
    (takes : ∀ field ∈ fields, TakesValue field.read) (closed : Bool)
    (found : List (String × Datum)) : Advances (· ≠ none) (nextField fields closed found) := by
  apply Advances.of_nextKey
  · rfl
  · exact fun name => (fieldValue takes closed found name).steady.bind fun _ => .of_pure _

theorem record {fields : List (FieldReader ε)} (takes : ∀ field ∈ fields, TakesValue field.read)
    (closed : Bool) : TakesValue (record fields closed) :=
  object fun _ => (Local.iterate (nextField_advances takes closed)
    (fun found => Local.nextKey.bind fun name => by
      cases name with
      | none => exact .of_pure none
      | some name => exact (fieldValue takes closed found name _).bind fun _ => .of_pure _) []).bind
    fun _ => (Local.of_except _).bind fun _ => .of_pure _

theorem variant {payloads : List (String × Reader ε Datum)}
    (takes : ∀ payload ∈ payloads, TakesValue payload.2) (name : String) :
    IsLocal (variant payloads name) := by
  intro bound
  unfold Reader.variant
  split
  · exact .of_fail _
  · next payload found =>
      obtain ⟨before, after, shape, _⟩ := List.lookup_eq_some_iff.1 found
      exact ((takes (name, payload) (by simp [shape])).isLocal bound).bind fun _ => .of_pure _

theorem enumeration {payloads : List (String × Reader ε Datum)}
    (takes : ∀ payload ∈ payloads, TakesValue payload.2) (bare : String → Except Cause Datum) :
    TakesValue (enumeration payloads bare) :=
  of_next_bind fun event bound => by
    split
    · exact variant takes _ bound
    · exact .of_except _
    · refine Local.of_next.bind fun event => ?_
      split
      · exact (variant takes _ bound).bind fun _ => (Local.expect _).bind fun _ => .of_pure _
      · exact .of_fail _
    · exact .of_fail _

theorem option {value : Reader ε Datum} (takes : TakesValue value) : TakesValue (option value) where
  isLocal _ := Local.of_peek.bind fun event => by
    split
    · exact Local.of_consume.bind fun _ => .of_pure _
    · exact (takes.isLocal _).bind fun _ => .of_pure _
  advances := by
    intro decoder result last read _
    obtain ⟨event, middle, looked, back⟩ := exists_of_bind_ok read
    split at back
    · obtain ⟨_, final, taken, same⟩ := exists_of_bind_ok back
      cases same
      exact remaining_lt_of_consume looked taken
    · have fewer := IsLocal.steady (fun _ => .of_peek) decoder
      rw [looked] at fewer
      have present : TakesValue (do return Datum.some (← value)) := takes.bind fun _ _ => .of_pure _
      exact Nat.lt_of_lt_of_le (present.advances middle result last back trivial) fewer
  looks := Looks.of_peek.bind _

end TakesValue

end Reader

namespace Schema

open Reader

variable {ε : Type}

mutual

theorem takesValue_read (schema : Schema) : TakesValue (schema.read : Reader ε Datum) := by
  cases schema with
  | bool | integer kind | single | double | char | text | identifier | bytes =>
      simp only [read]
      exact (TakesValue.primitive _).bind fun _ _ => .of_except _
  | unit | namedUnit name =>
      rw [read]
      exact TakesValue.empty.bind fun _ _ => .of_pure _
  | ignored =>
      rw [read]
      exact TakesValue.skip.bind fun _ _ => .of_pure _
  | untyped | json =>
      rw [read]
      exact TakesValue.untyped.bind fun _ _ => .of_pure _
  | option of =>
      rw [read]
      exact (takesValue_read of).option
  | seq of =>
      have takes : TakesValue (of.read : Reader ε Datum) := takesValue_read of
      rw [read]
      exact .sequence (fun _ => (Local.elements takes.advances takes.isLocal.steady
        (takes.isLocal _)).bind fun _ => .of_pure _) _
  | tuple items =>
      rw [read]
      exact .tuple _ (takesValue_readItems items)
  | namedTuple name items =>
      rw [read]
      exact .tuple _ (takesValue_readItems items)
  | map key value =>
      have takes : TakesValue (value.read : Reader ε Datum) := takesValue_read value
      rw [read]
      exact .object fun _ => (Local.entries _ takes.isLocal.steady (takes.isLocal _)).bind
        fun _ => .of_pure _
  | wrapper name of =>
      rw [read]
      exact (takesValue_read of).bind fun _ _ => .of_pure _
  | record name fields closed =>
      rw [read]
      exact .record (takesValue_readFields fields) closed
  | enumeration name variants =>
      rw [read]
      exact .enumeration (takesValue_readVariants name variants) _

theorem takesValue_readItems (items : List Schema) :
    ∀ reader ∈ (readItems items : List (Reader ε Datum)), TakesValue reader := by
  match items with
  | [] => simp [readItems]
  | schema :: rest =>
      rw [readItems]
      exact List.forall_mem_cons.2 ⟨takesValue_read schema, takesValue_readItems rest⟩

theorem takesValue_readFields (fields : List (Field Schema)) :
    ∀ field ∈ (readFields fields : List (FieldReader ε)), TakesValue field.read := by
  match fields with
  | [] => simp [readFields]
  | ⟨name, schema, hasDefault⟩ :: rest =>
      rw [readFields]
      exact List.forall_mem_cons.2 ⟨takesValue_read schema, takesValue_readFields rest⟩

theorem takesValue_readVariants (enumeration : String) (variants : List (Variant Schema)) :
    ∀ payload ∈ (readVariants enumeration variants : List (String × Reader ε Datum)),
      TakesValue payload.2 := by
  match variants with
  | [] => simp [readVariants]
  | ⟨name, payload⟩ :: rest =>
      rw [readVariants]
      exact List.forall_mem_cons.2
        ⟨takesValue_readPayload _ payload, takesValue_readVariants enumeration rest⟩

theorem takesValue_readPayload (variant : String) (payload : Payload Schema) :
    TakesValue (readPayload variant payload : Reader ε Datum) := by
  match payload with
  | .unit =>
      rw [readPayload]
      exact TakesValue.empty.bind fun _ _ => .of_pure _
  | .value of =>
      rw [readPayload]
      exact takesValue_read of
  | .tuple items =>
      rw [readPayload]
      exact .tuple _ (takesValue_readItems items)
  | .record fields closed =>
      rw [readPayload]
      exact .record (takesValue_readFields fields) closed

end

end Schema

end ConfigScript
