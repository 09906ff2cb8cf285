import ConfigScript.Proofs.Association
import ConfigScript.Proofs.Decode.Interpretation
import ConfigScript.Proofs.Decode.Verdict

/-!
# Readers agree with interpretations

The reader of a schema takes the events of a tree, all of them or up to the one at which it fails,
and its result is what the schema makes of the tree. There is one lemma for each reader of a
container, from what the readers of its parts take.
-/

set_option autoImplicit false

namespace ConfigScript

namespace Reader

variable {ε α κ : Type}

/-- A reader that takes each tree as an interpretation says. -/
structure Agrees (reader : Reader ε Datum) (interpretation : Interpretation) : Prop where
  takesValue : TakesValue reader
  takes : ∀ tree, Takes reader tree.events (interpretation tree)

namespace Takes

theorem noEntries (entries : List (String × Tree)) :
    Takes (Reader.expect .objectClose : Reader ε Unit)
      (Tree.entriesEvents entries ++ [.objectClose]) (Tree.noEntries entries) := by
  cases entries with
  | nil => exact expect .objectClose
  | cons entry rest => exact expect_other Event.noConfusion _

theorem noItems (items : List Tree) :
    Takes (Reader.expect .arrayClose : Reader ε Unit)
      (Tree.itemsEvents items ++ [.arrayClose]) (Tree.noItems items) := by
  cases items with
  | nil => exact expect .arrayClose
  | cons tree rest =>
      obtain ⟨others, shape⟩ := tree.exists_events_eq
      rw [Tree.itemsEvents, shape]
      exact expect_other tree.opening_ne_arrayClose _

theorem primitive (expected : String) (tree : Tree) :
    Takes (primitive expected : Reader ε String) tree.events (tree.ofScalar expected .ok) := by
  cases tree with
  | primitive text => exact next_bind (of_pure text)
  | tagged name payload => exact next_bind (of_fail _ _)
  | object entries => exact next_bind (of_fail _ _)
  | array items => exact next_bind (of_fail _ _)

theorem empty (tree : Tree) : Takes (empty : Reader ε Unit) tree.events tree.ofNothing := by
  cases tree with
  | primitive text =>
      refine next_bind ?_
      by_cases null : text = "null"
      · simp only [null, Tree.ofNothing, if_true]
        exact of_pure ()
      · simp only [null, Tree.ofNothing, if_false]
        exact of_fail _ []
  | tagged name payload => exact next_bind (of_fail _ _)
  | object entries => exact next_bind (noEntries entries)
  | array items => exact next_bind (of_fail _ _)

theorem sequence {elements : Reader ε α} {items : List Tree → Except Cause α}
    (takes : ∀ trees, Takes (do
      let value ← elements
      Reader.expect .arrayClose
      return value) (Tree.itemsEvents trees ++ [.arrayClose]) (items trees))
    (empty : Except Cause α) (tree : Tree) :
    Takes (sequence elements empty) tree.events (tree.ofSequence items empty) := by
  cases tree with
  | primitive text => exact next_bind (of_fail _ _)
  | tagged name payload => exact next_bind (of_fail _ _)
  | object entries => exact next_bind ((noEntries entries).bind_except fun _ => empty)
  | array items => exact next_bind (takes items)

theorem object {entries : Reader ε α} {interpret : List (String × Tree) → Except Cause α}
    (takes : ∀ trees, TakesUpTo .objectClose entries (Tree.entriesEvents trees) (interpret trees))
    (tree : Tree) : Takes (object entries) tree.events (tree.ofObject interpret) := by
  cases tree with
  | primitive text => exact next_bind (of_fail _ _)
  | tagged name payload => exact next_bind (of_fail _ _)
  | object entries => exact next_bind (takes entries).expect
  | array items => exact next_bind (of_fail _ _)

/-- Each place takes one element, and elements that are left over are met by the expected end. -/
theorem places (expected : String) {readers : List (Reader ε Datum)}
    {interpretations : List Interpretation} (agree : List.Forall₂ Agrees readers interpretations)
    (position : Nat) (trees : List Tree) :
    Takes (do
      let values ← places expected readers position
      Reader.expect .arrayClose
      return values) (Tree.itemsEvents trees ++ [.arrayClose])
      (Tree.ofPlaces expected interpretations position trees) := by
  induction agree generalizing position trees with
  | nil =>
      have read := (noItems (ε := ε) trees).map fun _ => ([] : List Datum)
      rw [Reader.places, pure_bind]
      refine read.of_eq ?_
      cases trees <;> rfl
  | @cons reader interpretation readers interpretations agrees _ ih =>
      cases trees with
      | nil =>
          have missing : TakesUpTo .arrayClose
              (Reader.places expected (reader :: readers) position) []
              (.error (.invalidLength position expected)) := by
            exact TakesUpTo.nextElement.bind_ok fun _ => rfl
          exact missing.expect
      | cons tree trees =>
          have front := (agrees.takes tree).nextElement agrees.takesValue.looks
          rw [Reader.places, bind_assoc, Tree.itemsEvents, List.append_assoc]
          refine (front.bind (fun
            | none => .error (.invalidLength position expected)
            | some value =>
              (Tree.ofPlaces expected interpretations (position + 1) trees).map (value :: ·))
            fun next known => ?_).of_eq ?_
          · cases next with
            | none => cases read : interpretation tree <;> rw [read] at known <;> cases known
            | some value =>
                simp only [bind_assoc, pure_bind]
                simpa only [bind_assoc, pure_bind] using (ih (position + 1) trees).map (value :: ·)
          · rw [Tree.ofPlaces]
            cases interpretation tree with
            | error cause => rfl
            | ok value =>
                cases Tree.ofPlaces expected interpretations (position + 1) trees <;> rfl

theorem tuple (expected : String) {readers : List (Reader ε Datum)}
    {interpretations : List Interpretation} (agree : List.Forall₂ Agrees readers interpretations)
    (tree : Tree) :
    Takes (tuple expected readers) tree.events (tree.ofTuple expected interpretations) := by
  have same : readers.isEmpty = interpretations.isEmpty := by cases agree <;> rfl
  unfold Reader.tuple Tree.ofTuple
  rw [same]
  refine sequence (fun trees => ?_) _ tree
  simpa only [bind_assoc, pure_bind] using (places expected agree 0 trees).map Datum.list

end Takes

/-- The readers of fields by their names. -/
def byName (fields : List (FieldReader ε)) : List (String × Reader ε Datum) :=
  fields.map fun field => (field.name, field.read)

theorem map_byName (fields : List (FieldReader ε)) :
    (byName fields).map (·.1) = fields.map (·.name) := by
  simp [byName]

theorem lookup_byName (fields : List (FieldReader ε)) (name : String) :
    (byName fields).lookup name = (fields.find? (·.name = name)).map (·.read) := by
  induction fields with
  | nil => rfl
  | cons field rest ih =>
      change List.lookup name ((field.name, field.read) :: byName rest) = _
      by_cases same : field.name = name
      · simp [same]
      · simp [List.lookup_cons, same, beq_eq_false_iff_ne.2 (Ne.symm same), ih]

namespace Takes

variable {fields : List (FieldReader ε)} {parts : List (String × Interpretation)}

theorem fieldValue (agree : Keyed Agrees (byName fields) parts) (closed : Bool)
    (found : List (String × Datum)) (entry : String × Tree) :
    Takes (fieldValue fields closed found entry.1) entry.2.events
      (Tree.ofField parts closed found entry) := by
  obtain ⟨name, tree⟩ := entry
  have names : fields.map (·.name) = parts.map (·.1) :=
    (map_byName fields).symm.trans agree.map_key
  have related := agree.lookup name
  rw [lookup_byName] at related
  unfold Reader.fieldValue Tree.ofField
  generalize parts.lookup name = part at related ⊢
  cases known : fields.find? (·.name = name) with
  | none =>
      rw [known] at related
      cases related with
      | none =>
          cases closed with
          | true =>
              rw [names]
              exact of_fail _ _
          | false => exact (skip tree.skippable).map fun _ => found
  | some field =>
      rw [known] at related
      cases related with
      | @some _ interpretation agrees =>
          by_cases again : (found.lookup name).isSome
          · simp only [again, if_true]
            exact of_fail _ _
          · simp only [again]
            refine ((agrees.takes tree).map fun value => (name, value) :: found).of_eq ?_
            cases interpretation tree <;> rfl

theorem nextField (agree : Keyed Agrees (byName fields) parts) (closed : Bool)
    (found : List (String × Datum)) (entry : String × Tree) :
    Takes (nextField fields closed found) (Tree.entryEvents entry)
      ((Tree.ofField parts closed found entry).map some) :=
  nextKey_bind ((fieldValue agree closed found entry).map some)

/-- The entries of an object are gone through up to its end. -/
theorem allFields (takes : ∀ field ∈ fields, TakesValue field.read)
    (agree : Keyed Agrees (byName fields) parts) (closed : Bool) (entries : List (String × Tree)) :
    TakesUpTo .objectClose (iterate (Reader.nextField fields closed) [])
      (Tree.entriesEvents entries) (entries.foldlM (Tree.ofField parts closed) []) := by
  rw [Tree.entriesEvents_eq_flatMap]
  exact TakesUpTo.iterate (TakesValue.nextField_advances takes closed)
    (fun entry _ found => nextField agree closed found entry)
    (fun found => TakesUpTo.of_nextKey rfl) []

theorem record (takes : ∀ field ∈ fields, TakesValue field.read)
    (agree : Keyed Agrees (byName fields) parts) {declared : List (Field Schema)}
    (assembles : ∀ found, assemble found fields = Field.assemble found declared) (closed : Bool)
    (tree : Tree) :
    Takes (record fields closed) tree.events (tree.ofRecord declared parts closed) := by
  refine object (fun entries => (allFields takes agree closed entries).bind _ ?_) tree
  intro found _ decoder
  rw [assembles]
  cases Field.assemble found declared <;> rfl

theorem variant {readers : List (String × Reader ε Datum)}
    (agree : Keyed Agrees readers parts) (name : String) (tree : Tree) :
    Takes (variant readers name) tree.events (Tree.ofVariant parts name tree) := by
  have related := agree.lookup name
  unfold Reader.variant Tree.ofVariant
  generalize readers.lookup name = reader at related ⊢
  generalize parts.lookup name = part at related ⊢
  cases related with
  | none =>
      rw [agree.map_key]
      exact of_fail _ _
  | some agrees => exact (agrees.takes tree).map (Datum.variant name)

theorem enumeration {readers : List (String × Reader ε Datum)}
    (agree : Keyed Agrees readers parts) (bare : String → Except Cause Datum) (tree : Tree) :
    Takes (enumeration readers bare) tree.events (tree.ofEnumeration parts bare) := by
  cases tree with
  | primitive name => exact next_bind (of_except _)
  | tagged name payload => exact next_bind (variant agree name payload)
  | array items => exact next_bind (of_fail _ _)
  | object entries =>
      cases entries with
      | nil => exact next_bind (next_bind (of_fail _ []))
      | cons entry rest =>
          obtain ⟨name, payload⟩ := entry
          have closing := fun value (_ : Tree.ofVariant parts name payload = .ok value) =>
            (noEntries (ε := ε) rest).map fun _ => value
          refine next_bind ?_
          rw [Tree.entriesEvents, List.cons_append, List.append_assoc]
          refine next_bind (((variant agree name payload).bind _ closing).of_eq ?_)
          rw [Tree.ofEnumeration]
          cases Tree.ofVariant parts name payload with
          | error cause => rfl
          | ok value => cases Tree.noEntries rest <;> rfl

theorem option {reader : Reader ε Datum} {interpretation : Interpretation}
    (agrees : Agrees reader interpretation) (tree : Tree) :
    Takes (option reader) tree.events
      (if tree.opening = .primitive "null" then .ok .none
        else (interpretation tree).map .some) := by
  by_cases null : tree.opening = .primitive "null"
  · rw [if_pos null]
    cases tree with
    | primitive text =>
        cases null
        intro pulled shape rest consumed
        obtain ⟨⟨_, place⟩, rfl, same⟩ := List.map_eq_singleton_iff.1 shape
        cases same
        rfl
    | tagged | object | array => cases null
  · rw [if_neg null]
    have takes := (agrees.takes tree).map Datum.some
    obtain ⟨rest, shape⟩ := tree.exists_events_eq
    rw [shape] at takes ⊢
    refine peek_bind ?_ ?_
    · rw [if_neg null]
      exact agrees.takesValue.looks.bind _
    · rw [if_neg null]
      exact takes

end Takes

end Reader

namespace Schema

open Reader

variable {ε : Type}

theorem assemble_readFields (found : List (String × Datum)) (fields : List (Field Schema)) :
    assemble found (readFields fields : List (FieldReader ε)) = Field.assemble found fields := by
  induction fields with
  | nil => rfl
  | cons field rest ih =>
      obtain ⟨name, schema, hasDefault⟩ := field
      rw [readFields, assemble, Field.assemble, ih]
      cases (found.lookup name).elim (Field.absent ⟨name, schema, hasDefault⟩) .ok with
      | error cause => rfl
      | ok value => cases Field.assemble found rest <;> rfl

mutual

/-- The reader of a schema takes each tree as the schema interprets it. -/
theorem agrees_interpret (schema : Schema) :
    Agrees (schema.read : Reader ε Datum) schema.interpret := by
  refine ⟨takesValue_read schema, fun tree => ?_⟩
  cases schema with
  | bool | integer kind | single | double | char | text | identifier | bytes =>
      simp only [read, interpret]
      refine ((Takes.primitive _ tree).bind_except _).of_eq ?_
      cases tree <;> rfl
  | unit | namedUnit name =>
      simp only [read, interpret]
      exact (Takes.empty tree).map _
  | ignored =>
      rw [read, interpret]
      exact (Takes.skip tree.skippable).map _
  | untyped =>
      rw [read, interpret]
      exact (takes_untyped tree).map Datum.untyped
  | json =>
      rw [read, interpret]
      exact (takes_untyped tree).map fun value => Datum.json value.toJson
  | option of =>
      rw [read, interpret]
      exact Takes.option (agrees_interpret of) tree
  | seq of =>
      have agrees : Agrees (of.read : Reader ε Datum) of.interpret := agrees_interpret of
      rw [read, interpret]
      refine Takes.sequence (fun trees => ?_) _ tree
      exact ((TakesUpTo.elements agrees.takesValue fun tree _ => agrees.takes tree).map
        Datum.list).expect
  | tuple items =>
      rw [read, interpret]
      exact Takes.tuple _ (agree_interpretItems items) tree
  | namedTuple name items =>
      rw [read, interpret]
      exact Takes.tuple _ (agree_interpretItems items) tree
  | map key value =>
      have agrees : Agrees (value.read : Reader ε Datum) value.interpret := agrees_interpret value
      rw [read, interpret]
      refine (Takes.object (fun trees => (TakesUpTo.entries agrees.takesValue _
        fun entry _ => agrees.takes entry.2).map Datum.map) tree).of_eq ?_
      cases tree <;> rfl
  | wrapper name of =>
      rw [read, interpret]
      exact ((agrees_interpret of).takes tree).map Datum.wrapped
  | record name fields closed =>
      rw [read, interpret]
      exact Takes.record (takesValue_readFields fields) (agree_interpretFields fields)
        (fun found => assemble_readFields found fields) closed tree
  | enumeration name variants =>
      rw [read, interpret]
      exact Takes.enumeration (agree_interpretVariants name variants) _ tree

theorem agree_interpretItems (items : List Schema) :
    List.Forall₂ Agrees (readItems items : List (Reader ε Datum)) (interpretItems items) := by
  match items with
  | [] => exact .nil
  | schema :: rest =>
      rw [readItems, interpretItems]
      exact .cons (agrees_interpret schema) (agree_interpretItems rest)

theorem agree_interpretFields (fields : List (Field Schema)) :
    Keyed Agrees (byName (readFields fields : List (FieldReader ε))) (interpretFields fields) := by
  match fields with
  | [] => exact .nil
  | ⟨name, schema, hasDefault⟩ :: rest =>
      rw [readFields, interpretFields]
      exact .cons ⟨rfl, agrees_interpret schema⟩ (agree_interpretFields rest)

theorem agree_interpretVariants (enumeration : String) (variants : List (Variant Schema)) :
    Keyed Agrees (readVariants enumeration variants : List (String × Reader ε Datum))
      (interpretVariants enumeration variants) := by
  match variants with
  | [] => exact .nil
  | ⟨name, payload⟩ :: rest =>
      rw [readVariants, interpretVariants]
      exact .cons ⟨rfl, agrees_interpretPayload _ payload⟩
        (agree_interpretVariants enumeration rest)

theorem agrees_interpretPayload (variant : String) (payload : Payload Schema) :
    Agrees (readPayload variant payload : Reader ε Datum) (interpretPayload variant payload) := by
  refine ⟨takesValue_readPayload variant payload, fun tree => ?_⟩
  match payload with
  | .unit =>
      rw [readPayload, interpretPayload]
      exact (Takes.empty tree).map _
  | .value of =>
      rw [readPayload, interpretPayload]
      exact (agrees_interpret of).takes tree
  | .tuple items =>
      rw [readPayload, interpretPayload]
      exact Takes.tuple _ (agree_interpretItems items) tree
  | .record fields closed =>
      rw [readPayload, interpretPayload]
      exact Takes.record (takesValue_readFields fields) (agree_interpretFields fields)
        (fun found => assemble_readFields found fields) closed tree

end

end Schema

section Decode

variable {ε : Type} {schema : Schema} {tree : Tree} {datum : Datum} {cause : Cause}
  {events used left : List (Event × Path)}

theorem decode_of_interpret_ok (shape : events.map (·.1) = tree.events)
    (meant : schema.interpret tree = .ok datum) :
    decode schema (events.map .ok : List (Item ε)) = .ok datum := by
  have takes := (schema.agrees_interpret (ε := ε)).takes tree
  rw [meant] at takes
  have read := takes events shape [] (.root "")
  rw [List.append_nil] at read
  exact decode_of_ok read rfl

/-- A cause is placed at the last of the events that it takes. -/
theorem decode_of_rejectsAt (rejects : Reader.RejectsAt (schema.read : Reader ε Datum)
      (used.map (·.1)) (left.map (·.1)) cause) :
    decode schema ((used ++ left).map .ok : List (Item ε)) =
      .error (.mismatch ((Path.root "").following used) cause) := by
  obtain ⟨last, failed, _, place⟩ := rejects used left rfl rfl [] (.root "")
  rw [List.append_nil, ← List.map_append] at failed
  rw [decode_of_error failed, Failure.at, place]

/-- Events are read as what the schema makes of their tree, wherever they stand. -/
theorem decode_eq_ok_iff_of_events (shape : events.map (·.1) = tree.events) :
    decode schema (events.map .ok : List (Item ε)) = .ok datum ↔
      schema.interpret tree = .ok datum := by
  cases meant : schema.interpret tree with
  | ok value => rw [decode_of_interpret_ok shape meant, Except.ok.injEq, Except.ok.injEq]
  | error cause =>
      have takes := (schema.agrees_interpret (ε := ε)).takes tree
      rw [meant] at takes
      obtain ⟨used, left, split, rejects⟩ := takes
      obtain ⟨front, back, rfl, rfl, rfl⟩ := List.map_eq_append_iff.1 (shape.trans split)
      rw [decode_of_rejectsAt rejects]
      exact iff_of_false nofun nofun

theorem decode_eq_ok_iff {path : Path} :
    decode schema (path.items tree.events : List (Item ε)) = .ok datum ↔
      schema.interpret tree = .ok datum := by
  rw [Path.items_eq_map_along]
  exact decode_eq_ok_iff_of_events (path.along_eq_map _)

end Decode

end ConfigScript
