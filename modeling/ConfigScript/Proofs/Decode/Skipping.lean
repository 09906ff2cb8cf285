import ConfigScript.Proofs.Decode.Acceptance

/-!
# Skipping a value and reading it

A value of any form is read from the events of a tree, and skipping takes whatever is skippable. So
what can be read can be skipped, and both take the same events. The converse holds where a value
comes next, or the beginning of one. Elsewhere skipping may pass over events that are no value.
-/

set_option autoImplicit false

namespace ConfigScript

variable {ε : Type}

/-- The second decoder is the first with exactly these events consumed and the next one not looked
at. -/
def Decoder.Consumes (first : Decoder ε) (pulled : List (Event × Path)) (last : Decoder ε) : Prop :=
  ∃ rest, first.upcoming = pulled.map .ok ++ rest ∧
    last = ⟨rest, none, first.consumed.following pulled⟩

/-- What has been consumed is told by where this has led. -/
theorem Decoder.Consumes.pulled_eq {first last : Decoder ε} {pulled others : List (Event × Path)}
    (consumes : first.Consumes pulled last) (other : first.Consumes others last) :
    pulled = others := by
  obtain ⟨rest, next, rfl⟩ := consumes
  obtain ⟨_, otherNext, same⟩ := other
  obtain rfl := congrArg Decoder.pending same
  have items := List.append_cancel_right (next.symm.trans otherNext)
  exact (List.map_inj_right fun _ _ => Except.ok.inj).1 items

/-- What is consumed are the first of the events before the end or an error. -/
theorem Decoder.Consumes.exists_eq_append {first last : Decoder ε}
    {pulled events : List (Event × Path)} {rest : List (Item ε)}
    (consumes : first.Consumes pulled last) (next : first.upcoming = events.map .ok ++ rest)
    (ends : ∀ event more, rest ≠ .ok event :: more) : ∃ left, events = pulled ++ left := by
  obtain ⟨others, same, -⟩ := consumes
  rw [next] at same
  clear next
  induction pulled generalizing events with
  | nil => exact ⟨events, rfl⟩
  | cons event pulled ih =>
      cases events with
      | nil => exact absurd same (ends event _)
      | cons head events =>
          obtain ⟨head, tail⟩ := List.cons.inj same
          cases head
          obtain ⟨left, rfl⟩ := ih tail
          exact ⟨left, rfl⟩

namespace Reader

variable {α β : Type} {reader : Reader ε α} {related : α → List Event → Prop}
  {decoder last : Decoder ε} {value : α}

/-- A reader that succeeds exactly on the events that are related to its result. -/
structure Recognizes (reader : Reader ε α) (related : α → List Event → Prop) : Prop where
  looks : Looks reader
  yields : Yields reader related
  takes : ∀ value events, related value events → Takes reader events (.ok value)

namespace Recognizes

theorem read (recognizes : Recognizes reader related) {pulled : List (Event × Path)}
    (consumes : decoder.Consumes pulled last) (holds : related value (pulled.map (·.1))) :
    reader decoder = (.ok value, last) := by
  obtain ⟨rest, next, rfl⟩ := consumes
  rw [recognizes.looks.eq_of_upcoming next]
  exact recognizes.takes value _ holds pulled rfl rest decoder.consumed

theorem eq_ok_iff (recognizes : Recognizes reader related) :
    reader decoder = (.ok value, last) ↔
      ∃ pulled, decoder.Consumes pulled last ∧ related value (pulled.map (·.1)) := by
  constructor
  · intro read
    obtain ⟨pulled, next, holds⟩ := recognizes.yields read
    have again := recognizes.read ⟨last.upcoming, next, rfl⟩ holds
    exact ⟨pulled, ⟨last.upcoming, next, (Prod.mk.inj (read.symm.trans again)).2⟩, holds⟩
  · rintro ⟨pulled, consumes, holds⟩
    exact recognizes.read consumes holds

theorem map (recognizes : Recognizes reader related) (function : α → β) :
    Recognizes (do return function (← reader))
      fun result events => ∃ value, related value events ∧ function value = result where
  looks := recognizes.looks.bind _
  yields := recognizes.yields.map fun value _ holds => ⟨value, holds, rfl⟩
  takes := by
    rintro _ events ⟨value, holds, rfl⟩
    exact (recognizes.takes value events holds).map function

theorem untyped : Recognizes (untyped : Reader ε Untyped) Denoted where
  looks := TakesValue.untyped.looks
  yields := yields_untyped
  takes := by
    rintro _ _ ⟨tree, rfl, rfl⟩
    exact takes_untyped tree

end Recognizes

theorem yields_skip : Yields (skip : Reader ε Unit) fun _ events => Skippable events := by
  -- What has been passed over is the beginning of whatever finishes from the depth reached.
  have loop : Yields (iterate skipEvent 0 : Reader ε Nat) fun _ events => Finishes 0 events := by
    refine Yields.iterate
      (fun depth before => ∀ more, Finishes depth more → Finishes 0 (before ++ more)) _ ?_
      fun more finishes => finishes
    intro depth before reached
    apply Yields.next_bind
    intro event
    cases counted : depthAfter depth event with
    | error cause => exact .of_fail cause
    | ok next =>
        apply Yields.of_pure
        cases next with
        | none => exact reached [event] (.last counted)
        | some after =>
            intro more finishes
            rw [List.append_assoc]
            exact reached (event :: more) (.next counted finishes)
  apply loop.map
  intro _ events finishes
  exact finishes.skippable

theorem Recognizes.skip : Recognizes (skip : Reader ε Unit) fun _ events => Skippable events where
  looks := TakesValue.skip.looks
  yields := yields_skip
  takes := fun _ _ skippable => Takes.skip skippable

/-- Skipping with a result that is known beforehand. -/
theorem skip_return_eq_ok_iff (value : α) :
    (do skip; return value) decoder = (.ok value, last) ↔
      ∃ pulled, decoder.Consumes pulled last ∧ Skippable (pulled.map (·.1)) := by
  apply (Recognizes.skip.map fun _ => value).eq_ok_iff.trans
  simp only [and_true, exists_const]

end Reader

open Reader

namespace Schema

theorem ignored_read_eq_ok_iff {decoder last : Decoder ε} :
    Schema.ignored.read decoder = (.ok .ignored, last) ↔
      ∃ pulled, decoder.Consumes pulled last ∧ Skippable (pulled.map (·.1)) := by
  rw [Schema.read]
  exact skip_return_eq_ok_iff _

theorem IsOfAnyForm.exists_read_iff {schema : Schema} {result : Untyped → Datum}
    (anyForm : schema.IsOfAnyForm ε result) {decoder last : Decoder ε} :
    (∃ datum, schema.read decoder = (.ok datum, last)) ↔
      ∃ pulled, decoder.Consumes pulled last ∧ WellFormed (pulled.map (·.1)) := by
  rw [anyForm.reads]
  simp only [(Recognizes.untyped.map result).eq_ok_iff]
  constructor
  · rintro ⟨_, pulled, consumes, _, ⟨tree, shape, -⟩, -⟩
    exact ⟨pulled, consumes, tree, shape⟩
  · rintro ⟨pulled, consumes, tree, shape⟩
    exact ⟨_, pulled, consumes, _, ⟨tree, shape, rfl⟩, rfl⟩

end Schema

/-- The value of an unknown field of an open record is skipped. -/
theorem Reader.fieldValue_eq_ok_iff_of_unknown {fields : List (FieldReader ε)} {name : String}
    (unknown : fields.find? (·.name = name) = none) (found : List (String × Datum))
    {decoder last : Decoder ε} :
    fieldValue fields false found name decoder = (.ok found, last) ↔
      ∃ pulled, decoder.Consumes pulled last ∧ Skippable (pulled.map (·.1)) := by
  unfold fieldValue
  rw [unknown]
  exact skip_return_eq_ok_iff found

/-- Skipping takes what is skippable, also as the value of an unknown field of a record. What can be
read as a value of any form can be skipped, and both take the same events. After skipping, a value
could have been read exactly when the events that were taken are well formed. So the two agree where
a value comes next, or the beginning of one and then the end or an error. -/
theorem skips_iff_reads {schema : Schema} {result : Untyped → Datum}
    (anyForm : schema.IsOfAnyForm ε result) (decoder : Decoder ε) :
    let skips := fun last => Schema.ignored.read decoder = (.ok .ignored, last)
    let reads := fun last => ∃ datum, schema.read decoder = (.ok datum, last)
    (∀ last, skips last ↔
      ∃ pulled, decoder.Consumes pulled last ∧ Skippable (pulled.map (·.1))) ∧
    (∀ last, reads last → skips last) ∧
    (∀ last other, skips last → reads other → last = other) ∧
    (∀ pulled last, decoder.Consumes pulled last → skips last →
      (reads last ↔ WellFormed (pulled.map (·.1)))) ∧
    (∀ (events : List (Event × Path)) rest more (tree : Tree) after,
      decoder.upcoming = events.map .ok ++ rest → (∀ event others, rest ≠ .ok event :: others) →
      events.map (·.1) ++ more = tree.events ++ after → ∀ last, skips last ↔ reads last) ∧
    ∀ (fields : List (FieldReader ε)) found name, fields.find? (·.name = name) = none →
      ∀ last, fieldValue fields false found name decoder = (.ok found, last) ↔ skips last := by
  intro skips reads
  have skipped : ∀ last, skips last ↔
      ∃ pulled, decoder.Consumes pulled last ∧ Skippable (pulled.map (·.1)) :=
    fun _ => Schema.ignored_read_eq_ok_iff
  have read : ∀ last, reads last ↔
      ∃ pulled, decoder.Consumes pulled last ∧ WellFormed (pulled.map (·.1)) :=
    fun _ => anyForm.exists_read_iff
  have readSkipped : ∀ last, reads last → skips last := by
    intro last reading
    obtain ⟨pulled, consumes, tree, shape⟩ := (read last).1 reading
    exact (skipped last).2 ⟨pulled, consumes, shape ▸ tree.skippable⟩
  refine ⟨skipped, readSkipped, ?_, ?_, ?_, ?_⟩
  · intro last other skipping reading
    exact (Prod.mk.inj (skipping.symm.trans (readSkipped other reading))).2
  · intro pulled last consumes _
    rw [read]
    constructor
    · rintro ⟨others, alike, whole⟩
      rwa [consumes.pulled_eq alike]
    · intro whole
      exact ⟨pulled, consumes, whole⟩
  · intro events rest more tree after next ends begins last
    refine ⟨fun skipping => ?_, readSkipped last⟩
    obtain ⟨pulled, consumes, skippable⟩ := (skipped last).1 skipping
    obtain ⟨left, rfl⟩ := consumes.exists_eq_append next ends
    rw [List.map_append, List.append_assoc] at begins
    have shape := skippable.eq_of_append tree.skippable begins
    exact (read last).2 ⟨pulled, consumes, tree, shape.symm⟩
  · intro fields found name unknown last
    rw [skipped]
    exact fieldValue_eq_ok_iff_of_unknown unknown found

/-- A tagged value in front of an error is skipped as it is read. -/
theorem skips_tagged_value_before_error :
    let value := (Path.root "text").along
      [.typeTag "circle", .objectOpen, .key "r", .primitive "1", .objectClose]
    let stream : Decoder String := .ofItems (value.map .ok ++ [.error "broken"])
    Schema.untyped.IsOfAnyForm String .untyped ∧ ∃ last, last.pending = [.error "broken"] ∧
      Schema.ignored.read stream = (.ok .ignored, last) ∧
        ∃ datum, Schema.untyped.read stream = (.ok datum, last) := by
  intro value stream
  have anyForm : Schema.untyped.IsOfAnyForm String .untyped := .of_untyped
  have agree := (skips_iff_reads anyForm stream).2.2.2.2.1 value [.error "broken"] []
    (.tagged "circle" (.object [("r", .primitive "1")])) [] rfl nofun rfl
  exact ⟨anyForm, _, rfl, rfl, (agree _).1 rfl⟩

/-- Another bracket than the one that fits is skipped, but it is not read. With it a record is
accepted although what stands for an unknown field is no value. -/
theorem skips_mismatched_bracket :
    let events := [Event.arrayOpen, .objectClose]
    let stream : Decoder String := .ofItems ((Path.root "text").items events)
    let outer := .objectOpen :: .key "extra" :: events ++ [.objectClose]
    ¬ WellFormed events ∧ (∃ last, Schema.ignored.read stream = (.ok .ignored, last)) ∧
      (¬ ∃ datum last, Schema.untyped.read stream = (.ok datum, last)) ∧
      decode (.record "Settings" [⟨"plain", .bool, true⟩] false)
        ((Path.root "text").items outer : List (Item String)) =
          .ok (.record [("plain", .default)]) := by
  intro events stream outer
  refine ⟨?_, ⟨_, rfl⟩, ?_, rfl⟩
  · intro whole
    obtain ⟨datum, decoded⟩ := (Schema.IsOfAnyForm.of_untyped (ε := String)).exists_decode_iff.2
      (show WellFormed (((Path.root "text").along events).map (·.1)) from whole)
    cases decoded
  · rintro ⟨datum, last, read⟩
    cases read

end ConfigScript
