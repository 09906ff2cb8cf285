import ConfigScript.Proofs.Decode.Acceptance
import ConfigScript.Proofs.Document.Settled
import ConfigScript.Proofs.Walker.Balance

/-!
# No partial results

A walk that fails has yielded less than a whole value, so nothing is read from it: the result is its
error, or a mismatch at one of the events before it. Where every value fits, it is the error itself.
-/

set_option autoImplicit false

namespace ConfigScript

/-- A schema that every value fits. -/
def Schema.IsSelfDescribing (schema : Schema) : Prop :=
  schema = .untyped ∨ schema = .json

theorem Schema.IsSelfDescribing.exists_decode {schema : Schema} {events : List Event}
    (selfDescribing : schema.IsSelfDescribing) (ε : Type) (whole : WellFormed events) (path : Path) :
    ∃ value, decode schema (path.items events : List (Item ε)) = .ok value := by
  have presents : WellFormed ((path.along events).map (·.1)) := by rwa [Path.along_eq_map]
  rw [Path.items_eq_map_along]
  rcases selfDescribing with rfl | rfl
  · exact IsOfAnyForm.of_untyped.exists_decode_iff.2 presents
  · exact IsOfAnyForm.of_json.exists_decode_iff.2 presents

/-- Some events of a well-formed value never refute a schema that every value fits. -/
theorem Schema.IsSelfDescribing.not_refuted {schema : Schema} {events rest : List Event}
    (selfDescribing : schema.IsSelfDescribing) (whole : WellFormed (events ++ rest))
    {path place : Path} {cause : Cause} :
    ¬ ∀ more : List (Item Interruption),
      decode schema (path.items events ++ more) = .error (.mismatch place cause) := by
  intro refuted
  obtain ⟨value, read⟩ := selfDescribing.exists_decode Interruption whole path
  rw [Path.items_append, refuted] at read
  cases read

namespace Document

theorem mem_items_of_mem_along {ε : Type} {path place : Path} {events : List Event} {event : Event}
    (member : (event, place) ∈ path.along events) :
    .ok (event, place) ∈ (path.items events : List (Item ε)) := by
  rw [Path.items_eq_map_along]
  exact List.mem_map_of_mem member

/-- A document whose walk fails is not read. The error is that of the walk, or that of a mismatch at
an event before it. When every value fits the schema, the document is read exactly when its walk
does not fail, and the error is that of the walk. -/
theorem read?_of_walk (document : Document) (schema : Schema) (pulls : Nat)
    (finished : (document.walker.after pulls).next? = none) :
    let items := document.walker.items pulls
    (∀ before invalid later, items = before ++ .error invalid :: later →
      document.read? schema = some (.error (.invalidStream invalid.path invalid.fault)) ∨
        ∃ event path cause, .ok (event, path) ∈ before ∧
          document.read? schema = some (.error (.deserialize path cause))) ∧
      (schema.IsSelfDescribing →
        ((∃ value, document.read? schema = some (.ok value)) ↔
          ∀ invalid, .error invalid ∉ items) ∧
        ∀ invalid, .error invalid ∈ items →
          document.read? schema = some (.error (.invalidStream invalid.path invalid.fault))) := by
  intro items
  cases Walker.finished finished with
  | whole events shape whole =>
      have listed : items = (Path.root document.source).items events := shape
      have noError : ∀ invalid, .error invalid ∉ items := by
        intro invalid member
        exact Path.error_not_mem_items _ events invalid (listed ▸ member)
      constructor
      · intro before invalid later split
        exact absurd (split ▸ by simp) (noError invalid)
      · intro selfDescribing
        obtain ⟨value, read⟩ :=
          selfDescribing.exists_decode Interruption whole (.root document.source)
        have settled := read?_of_events schema finished shape
        rw [read] at settled
        exact ⟨⟨fun _ => noError, fun _ => ⟨value, settled⟩⟩,
          fun invalid member => absurd member (noError invalid)⟩
  | failed events rest fault shape whole missing =>
      have listed : items = (Path.root document.source).items events ++
          [.error ⟨(Path.root document.source).pushAll events, fault⟩] := shape
      have only : ∀ before invalid later, items = before ++ .error invalid :: later →
          before = (Path.root document.source).items events ∧
            invalid = ⟨(Path.root document.source).pushAll events, fault⟩ :=
        fun before invalid later split => Path.eq_items_of_error (listed.symm.trans split)
      rcases read?_of_failed schema finished shape with
        met | ⟨event, path, cause, member, refuted, read⟩
      · have same : ∀ invalid, .error invalid ∈ items →
            document.read? schema = some (.error (.invalidStream invalid.path invalid.fault)) := by
          intro invalid member
          obtain ⟨before, later, split⟩ := List.append_of_mem member
          rw [(only before invalid later split).2]
          exact met
        constructor
        · intro before invalid later split
          exact .inl (same invalid (split ▸ by simp))
        · intro _
          refine ⟨⟨fun readable => ?_, fun noError => ?_⟩, same⟩
          · obtain ⟨value, read⟩ := readable
            cases met.symm.trans read
          · exact absurd (by simp [listed])
              (noError ⟨(Path.root document.source).pushAll events, fault⟩)
      · constructor
        · intro before invalid later split
          refine .inr ⟨event, path, cause, ?_, read⟩
          rw [(only before invalid later split).1]
          exact mem_items_of_mem_along member
        · exact fun selfDescribing => absurd refuted (selfDescribing.not_refuted whole)

/-- A function among the entries of a map fails whatever was read before it. -/
theorem read?_of_function :
    let entries := [(.ofText "port", .integer 80), (.ofText "run", .function (.library "print"))]
    let document : Document := ⟨⟨#[⟨entries, 0⟩]⟩, .table 0, "text", {}⟩
    let path := (Path.root "text").pushAll [.objectOpen, .key "port", .primitive "80", .key "run"]
    (document.walker.after 5).next? = none ∧
      document.read? .json = some (.error (.invalidStream path (.unknownKind .function))) := by
  intro entries document path
  have finished : (document.walker.after 5).next? = none :=
    Option.isNone_iff_eq_none.1 (by decide +kernel)
  have failed : .error ⟨path, .unknownKind .function⟩ ∈ document.walker.items 5 := by
    decide +kernel
  exact ⟨finished, ((read?_of_walk document .json 5 finished).2 (.inr rfl)).2 _ failed⟩

end Document

end ConfigScript
