import ConfigScript.Proofs.Decode.Ending

/-!
# What some events say about a whole stream

Reading a stream as a schema either refutes it after some events, whatever follows, or asks for more
and hands on the error that it meets. In particular a stream with an error is never accepted.
-/

set_option autoImplicit false

namespace ConfigScript

open Reader

variable {ε : Type} {schema : Schema} {events : List (Event × Path)}

/-- What some events say about the streams that begin with them. -/
inductive Verdict (ε : Type) (schema : Schema) (events : List (Event × Path)) : Prop where
  /-- None of them is a value of the schema, by what is found at one of the events. -/
  | refuted (event : Event) (path : Path) (cause : Cause) :
      (event, path) ∈ events →
      (∀ rest : List (Item ε), decode schema (events.map .ok ++ rest) =
        .error (.mismatch path cause)) → Verdict ε schema events
  /-- What follows is asked for. -/
  | undecided :
      (∀ error : ε, decode schema (events.map .ok) ≠ .error (.stream error)) →
      (∀ (error : ε) rest, decode schema (events.map .ok ++ .error error :: rest) =
        .error (.stream error)) → Verdict ε schema events

theorem decode_of_readWhole_ok {items : List (Item ε)} {value : Datum} {last : Decoder ε}
    (read : schema.readWhole (.ofItems items) = (.ok value, last)) :
    decode schema items = .ok value := by
  simp only [decode, read]

theorem decode_of_readWhole_error {items : List (Item ε)} {failure : Failure ε}
    {last : Decoder ε} (read : schema.readWhole (.ofItems items) = (.error failure, last)) :
    decode schema items = .error (failure.at last) := by
  simp only [decode, read]

theorem decode_of_error {items : List (Item ε)} {failure : Failure ε} {last : Decoder ε}
    (read : schema.read (.ofItems items) = (.error failure, last)) :
    decode schema items = .error (failure.at last) :=
  decode_of_readWhole_error (bind_of_error read)

theorem decode_of_finish {items : List (Item ε)} {value : Datum} {failure : Failure ε}
    {last final : Decoder ε} (read : schema.read (.ofItems items) = (.ok value, last))
    (finished : finish last = (.error failure, final)) :
    decode schema items = .error (failure.at final) :=
  decode_of_readWhole_error ((bind_of_ok read).trans (bind_of_error finished))

theorem decode_of_ok {items : List (Item ε)} {value : Datum} {last final : Decoder ε}
    (read : schema.read (.ofItems items) = (.ok value, last))
    (finished : finish last = (.ok (), final)) : decode schema items = .ok value :=
  decode_of_readWhole_ok ((bind_of_ok read).trans (bind_of_ok finished))

/-- A reader that looks at an event first has pulled it before it refutes a stream. -/
theorem Reader.Looks.pulled_ne_nil {α : Type} {reader : Reader ε α} (looks : Looks reader)
    (reads : ∀ first, Ends reader first) {first last : Decoder ε} (fresh : first.peeked = none)
    {result : Except (Failure ε) α} {pulled : List (Event × Path)}
    (same : ∀ rest, reader (first.facing (pulled.map .ok ++ rest)) = (result, last.facing rest)) :
    pulled ≠ [] := by
  rintro rfl
  have read := same [.ok (.objectClose, first.consumed)]
  have looked : peek (first.facing [.ok (.objectClose, first.consumed)]) =
      (.ok .objectClose, ⟨[], some (.objectClose, first.consumed), first.consumed⟩) := by
    rcases first with ⟨pending, _ | _, consumed⟩
    · rfl
    · cases fresh
  rw [List.map_nil, List.nil_append, ← looks, bind_of_ok looked] at read
  have few := (reads ⟨[], some (.objectClose, first.consumed), first.consumed⟩).leadsTo
  rw [read] at few
  exact absurd few.pending_length_le (by simp)

/-- Some events are enough to refute a stream, or what follows them is asked for. -/
theorem verdict (ε : Type) (schema : Schema) (events : List (Event × Path)) :
    Verdict ε schema events := by
  cases schema.ends_readWhole (.ofItems (events.map (Except.ok : Event × Path → Item ε))) with
  | asked pulled result last rest follows shape ends missed bare met =>
      rcases ends with rfl | ⟨error, later, rfl⟩
      · obtain rfl : events = pulled :=
          (List.map_inj_right fun _ _ => Except.ok.inj).1 (shape.trans (List.append_nil _))
        refine .undecided (fun error same => ?_) fun error rest =>
          decode_of_readWhole_error (met error rest)
        cases result with
        | ok value =>
            rw [decode_of_readWhole_ok bare] at same
            cases same
        | error cause =>
            rw [decode_of_readWhole_error bare] at same
            cases same
      · have member : .error error ∈ events.map (Except.ok : Event × Path → Item ε) := by
          rw [show events.map Except.ok = _ from shape]
          simp
        simp at member
  | refuted pulled cause last follows shape same =>
      have looks : Looks (schema.readWhole : Reader ε Datum) := schema.takesValue_read.looks.bind _
      have some := looks.pulled_ne_nil schema.ends_readWhole rfl same
      obtain ⟨event, member⟩ := Path.exists_mem_following (.root "") some
      obtain ⟨before, more, rfl, samePulled, _⟩ := List.map_eq_append_iff.1 shape
      obtain rfl : before = pulled :=
        (List.map_inj_right fun _ _ => Except.ok.inj).1 samePulled
      have place : last.path = (Path.root "").following before := follows.path
      have read : ∀ rest, schema.readWhole (.ofItems ((before ++ more).map .ok ++ rest)) =
          (.error (.cause cause), last.facing (more.map .ok ++ rest)) := by
        intro rest
        rw [List.map_append, List.append_assoc]
        exact same _
      rw [← place] at member
      exact .refuted event last.path cause (List.mem_append_left _ member)
        fun rest => decode_of_readWhole_error (read rest)

end ConfigScript
