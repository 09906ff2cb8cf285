import ConfigScript.Error
import ConfigScript.Proofs.Decode.Agreement
import ConfigScript.Proofs.Path.Location

/-!
# Unknown entries are invisible

A record that is not closed skips the entries that it does not know. Others may be put anywhere
between the entries of an object: the same fields are found, and if one of them is no value of its
schema, reading stops at the same event of the same entry. So the result is the same value, or the
same cause at a place of the same address.
-/

set_option autoImplicit false

namespace ConfigScript

namespace Tree

/-- The second entries are the first with others between them, whose keys are none of some names. -/
inductive Inserted (names : List String) :
    List (String × Tree) → List (String × Tree) → Prop where
  | nil : Inserted names [] []
  | keep {entries others : List (String × Tree)} (entry : String × Tree) :
      Inserted names entries others → Inserted names (entry :: entries) (entry :: others)
  | insert {entries others : List (String × Tree)} {key : String} (value : Tree) :
      key ∉ names → Inserted names entries others → Inserted names entries ((key, value) :: others)

namespace Inserted

variable {names : List String} {entries others before after : List (String × Tree)}
  {entry : String × Tree}

/-- The entries before one of the first are among those before it in the second. -/
theorem exists_before (inserted : Inserted names (before ++ entry :: after) others) :
    ∃ first rest, others = first ++ entry :: rest ∧ Inserted names before first := by
  generalize same : before ++ entry :: after = entries at inserted
  induction inserted generalizing before with
  | nil => exact absurd same (by simp)
  | @keep _ others kept _ ih =>
      cases before with
      | nil =>
          cases same
          exact ⟨[], others, rfl, .nil⟩
      | cons head before =>
          cases same
          obtain ⟨first, rest, rfl, inserted⟩ := ih rfl
          exact ⟨kept :: first, rest, rfl, .keep kept inserted⟩
  | @insert _ _ key value unknown _ ih =>
      obtain ⟨first, rest, rfl, inserted⟩ := ih same
      exact ⟨(key, value) :: first, rest, rfl, .insert value unknown inserted⟩

/-- No unknown entry changes the fields found. -/
theorem foldlM_ofField {parts : List (String × Interpretation)}
    (inserted : Inserted (parts.map (·.1)) entries others) (found : List (String × Datum)) :
    others.foldlM (ofField parts false) found = entries.foldlM (ofField parts false) found := by
  induction inserted generalizing found with
  | nil => rfl
  | keep entry _ ih =>
      rw [List.foldlM_cons, List.foldlM_cons]
      exact congrArg _ (funext ih)
  | @insert entries others key value unknown _ ih =>
      have skipped : ofField parts false found (key, value) = .ok found := by
        unfold ofField
        rw [lookup_of_not_mem unknown]
        rfl
      rw [List.foldlM_cons, skipped]
      exact ih found

end Inserted

/-- The events of an object, cut inside the value of an entry. -/
theorem events_around_entry {tree : Tree} {used left : List Event}
    (split : tree.events = used ++ left) (before : List (String × Tree)) (key : String)
    (after : List (String × Tree)) :
    (object (before ++ (key, tree) :: after)).events =
      .objectOpen :: (entriesEvents before ++ .key key :: used) ++
        (left ++ (entriesEvents after ++ [.objectClose])) := by
  simp only [events, entriesEvents_eq_flatMap, List.flatMap_append, List.flatMap_cons, entryEvents,
    split, List.append_assoc, List.cons_append]

/-- A record fails in an entry or for want of a field. -/
theorem ofRecord_eq_error {declared : List (Field Schema)} {parts : List (String × Interpretation)}
    {closed : Bool} {entries : List (String × Tree)} {cause : Cause}
    (failed : (object entries).ofRecord declared parts closed = .error cause) :
    entries.foldlM (ofField parts closed) [] = .error cause ∨
      ∃ found, entries.foldlM (ofField parts closed) [] = .ok found ∧
        Field.assemble found declared = .error cause := by
  change (do
    let found ← entries.foldlM (ofField parts closed) []
    return Datum.record (← Field.assemble found declared)) = .error cause at failed
  cases known : entries.foldlM (ofField parts closed) [] with
  | error other =>
      rw [known] at failed
      cases failed
      exact .inl rfl
  | ok found =>
      rw [known] at failed
      change (do return Datum.record (← Field.assemble found declared)) = .error cause at failed
      cases assembled : Field.assemble found declared with
      | error other =>
          rw [assembled] at failed
          cases failed
          exact .inr ⟨found, rfl, assembled⟩
      | ok values =>
          rw [assembled] at failed
          cases failed

end Tree

/-- The first round of a loop that fails, and what was reached before it. -/
theorem exists_of_foldlM_eq_error {σ π : Type} {round : σ → π → Except Cause σ} {parts : List π}
    {state : σ} {cause : Cause} (failed : parts.foldlM round state = .error cause) :
    ∃ before each after reached, parts = before ++ each :: after ∧
      before.foldlM round state = .ok reached ∧ round reached each = .error cause := by
  induction parts generalizing state with
  | nil => cases failed
  | cons part rest ih =>
      rw [List.foldlM_cons] at failed
      cases result : round state part with
      | error other =>
          rw [result] at failed
          cases failed
          exact ⟨[], part, rest, state, rfl, rfl, result⟩
      | ok next =>
          rw [result] at failed
          obtain ⟨before, each, after, reached, rfl, known, fails⟩ := ih failed
          refine ⟨part :: before, each, after, reached, rfl, ?_, fails⟩
          rw [List.foldlM_cons, result]
          exact known

namespace Reader

variable {ε : Type} {fields : List (FieldReader ε)} {parts : List (String × Interpretation)}
  {before entries others : List (String × Tree)} {found : List (String × Datum)} {cause : Cause}
  {used left : List Event}

/-- A record fails where the value of one of its entries does. -/
theorem RejectsAt.record_entry (takes : ∀ field ∈ fields, TakesValue field.read)
    (agree : Keyed Agrees (byName fields) parts)
    (known : before.foldlM (Tree.ofField parts false) [] = .ok found) {key : String}
    (rejects : RejectsAt (fieldValue fields false found key) used left cause) :
    RejectsAt (record fields false)
      (.objectOpen :: (Tree.entriesEvents before ++ .key key :: used)) left cause := by
  have round : RejectsAt (nextField fields false found) (.key key :: used) left cause :=
    (rejects.bind _).after (Takes.nextKey key)
  have loop := round.iterate (TakesValue.nextField_advances takes false)
    (fun entry _ found => Takes.nextField agree false found entry) known
  rw [Tree.entriesEvents_eq_flatMap]
  exact ((loop.bind _).bind _).after (Takes.of_next .objectOpen)

/-- A record fails at the end of its entries when a field is missing. -/
theorem RejectsAt.record_end (takes : ∀ field ∈ fields, TakesValue field.read)
    (agree : Keyed Agrees (byName fields) parts)
    (known : entries.foldlM (Tree.ofField parts false) [] = .ok found)
    (missing : assemble found fields = .error cause) :
    RejectsAt (record fields false) (Tree.object entries).events [] cause := by
  have loop := Takes.allFields takes agree false entries
  rw [known] at loop
  have ended : RejectsAt (do
      let found ← Reader.iterate (nextField fields false) []
      return Datum.record (← ofExcept (assemble found fields)))
      (Tree.entriesEvents entries ++ [.objectClose]) [] cause := by
    refine loop.rejectsAt fun decoder => ?_
    rw [missing]
    rfl
  exact (ended.bind _).after (Takes.of_next .objectOpen)

/-- A record that fails in an object fails with the same cause when there are unknown entries as
well, and where it does leads to the same frames. -/
theorem RejectsAt.record_inserted (takes : ∀ field ∈ fields, TakesValue field.read)
    (agree : Keyed Agrees (byName fields) parts) {declared : List (Field Schema)}
    (assembles : ∀ found, assemble found fields = Field.assemble found declared)
    (inserted : Tree.Inserted (parts.map (·.1)) entries others)
    (failed : (Tree.object entries).ofRecord declared parts false = .error cause) :
    ∃ used left usedMore leftMore,
      (Tree.object entries).events = .objectOpen :: used ++ left ∧
      (Tree.object others).events = .objectOpen :: usedMore ++ leftMore ∧
      RejectsAt (record fields false) (.objectOpen :: used) left cause ∧
      RejectsAt (record fields false) (.objectOpen :: usedMore) leftMore cause ∧
      ∀ frames, (Event.objectOpen :: used).foldl Frame.advance frames =
        (Event.objectOpen :: usedMore).foldl Frame.advance frames := by
  rcases Tree.ofRecord_eq_error failed with known | ⟨found, known, missing⟩
  -- The value of an entry does not fit, given the fields found before it.
  · obtain ⟨before, ⟨key, tree⟩, after, found, rfl, reached, fails⟩ :=
      exists_of_foldlM_eq_error known
    obtain ⟨first, rest, rfl, insertedBefore⟩ := inserted.exists_before
    have reachedMore := (insertedBefore.foldlM_ofField []).trans reached
    have value := Takes.fieldValue agree false found (key, tree)
    rw [fails] at value
    obtain ⟨used, left, split, rejects⟩ := value
    have here := rejects.append (Tree.entriesEvents after ++ [.objectClose])
    have there := rejects.append (Tree.entriesEvents rest ++ [.objectClose])
    refine ⟨_, _, _, _, Tree.events_around_entry split before key after,
      Tree.events_around_entry split first key rest, here.record_entry takes agree reached,
      there.record_entry takes agree reachedMore, fun frames => ?_⟩
    rw [Frame.foldl_behind_key, Frame.foldl_behind_key]
  -- All entries fit, and a field is missing.
  · have knownMore := (inserted.foldlM_ofField []).trans known
    rw [← assembles] at missing
    refine ⟨_, [], _, [], (List.append_nil _).symm, (List.append_nil _).symm,
      .record_end takes agree known missing, .record_end takes agree knownMore missing,
      fun frames => ?_⟩
    exact (Frame.foldl_events (.object entries) frames).trans
      (Frame.foldl_events (.object others) frames).symm

end Reader

/-- Unknown entries between those of an object make no difference to a record that is not closed.
The value read from it is the same, or the cause is. If every event comes with the path that it
extends, the place is the same as well, and so is the message. -/
theorem decode_of_inserted {ε : Type} (name : String) {fields : List (Field Schema)}
    {entries others : List (String × Tree)}
    (inserted : Tree.Inserted (fields.map (·.name)) entries others)
    {events more : List (Event × Path)} (shape : events.map (·.1) = (Tree.object entries).events)
    (shapeMore : more.map (·.1) = (Tree.object others).events) :
    let schema := Schema.record name fields false
    let first : Except (DecodeError ε) Datum := decode schema (events.map .ok)
    let second : Except (DecodeError ε) Datum := decode schema (more.map .ok)
    (∃ datum, first = .ok datum ∧ second = .ok datum) ∨
      ∃ path other cause, first = .error (.mismatch path cause) ∧
        second = .error (.mismatch other cause) ∧
        ∀ start : Path, events = start.along (Tree.object entries).events →
          more = start.along (Tree.object others).events →
          (Error.deserialize path cause).message = (Error.deserialize other cause).message := by
  intro schema first second
  rw [← Schema.map_interpretFields] at inserted
  have agree := Schema.agree_interpretFields (ε := ε) fields
  have interpreted : ∀ entries, schema.interpret (.object entries) =
      (Tree.object entries).ofRecord fields (Schema.interpretFields fields) false := by
    intro entries
    simp only [schema, Schema.interpret]
  have same : schema.interpret (.object others) = schema.interpret (.object entries) := by
    rw [interpreted, interpreted]
    unfold Tree.ofRecord Tree.ofObject
    simp only [inserted.foldlM_ofField]
  cases meant : schema.interpret (.object entries) with
  | ok datum =>
      exact .inl ⟨datum, decode_of_interpret_ok shape meant,
        decode_of_interpret_ok shapeMore (same.trans meant)⟩
  | error cause =>
      rw [interpreted] at meant
      obtain ⟨used, left, usedMore, leftMore, split, splitMore, rejects, rejectsMore, frames⟩ :=
        Reader.RejectsAt.record_inserted (ε := ε) (Schema.takesValue_readFields fields) agree
          (fun found => Schema.assemble_readFields found fields) inserted meant
      obtain ⟨front, back, rfl, shapeFront, rfl⟩ := List.map_eq_append_iff.1 (shape.trans split)
      obtain ⟨frontMore, backMore, rfl, shapeFrontMore, rfl⟩ :=
        List.map_eq_append_iff.1 (shapeMore.trans splitMore)
      rw [← shapeFront] at rejects split
      rw [← shapeFrontMore] at rejectsMore splitMore
      refine .inr ⟨_, _, cause, decode_of_rejectsAt rejects, decode_of_rejectsAt rejectsMore, ?_⟩
      intro start along alongMore
      rw [split] at along
      rw [splitMore] at alongMore
      have place : (start.pushAll (.objectOpen :: used)).place =
          (start.pushAll (.objectOpen :: usedMore)).place := start.place_pushAll_congr frames
      rw [Path.eq_along_of_append along, Path.eq_along_of_append alongMore, shapeFront,
        shapeFrontMore, Path.following_along_cons, Path.following_along_cons,
        Error.message_deserialize, Error.message_deserialize, place]

/-- A field inside the value of an unknown entry is not taken for the one that the record asks for. -/
theorem decode_of_unknown_entry_in_front :
    let fields := [⟨"flag", Schema.bool, false⟩]
    let schema := Schema.record "Settings" fields false
    let entries := [("flag", Tree.primitive "7")]
    let others := ("extra", Tree.tagged "box" (.object [("flag", .primitive "true")])) :: entries
    let events := (Path.root "text").along (Tree.object entries).events
    let more := (Path.root "text").along (Tree.object others).events
    Tree.Inserted (fields.map (·.name)) entries others ∧
      ∃ path other cause,
        decode schema (events.map .ok : List (Item String)) = .error (.mismatch path cause) ∧
        decode schema (more.map .ok : List (Item String)) = .error (.mismatch other cause) ∧
        (Error.deserialize path cause).message = (Error.deserialize other cause).message := by
  intro fields schema entries others events more
  have inserted : Tree.Inserted (fields.map (·.name)) entries others :=
    .insert _ (by decide) (.keep _ .nil)
  have shape : events.map (·.1) = (Tree.object entries).events := Path.along_eq_map _ _
  have shapeMore : more.map (·.1) = (Tree.object others).events := Path.along_eq_map _ _
  refine ⟨inserted, ?_⟩
  rcases decode_of_inserted (ε := String) "Settings" inserted shape shapeMore with
    ⟨datum, accepted, _⟩ | ⟨path, other, cause, failed, failedMore, message⟩
  · cases accepted
  · exact ⟨path, other, cause, failed, failedMore, message (.root "text") rfl rfl⟩

end ConfigScript
