import ConfigScript.Proofs.Decode.Verdict

/-!
# Errors are placed at the last event that was pulled

Whatever is asked of a decoder, and whatever fails, its path is that of the last event that it has
pulled. So an error of reading a whole stream is the first error of the stream, handed on, or it is
placed at the last event pulled, and unless the end was reached, what is behind makes no difference.
-/

set_option autoImplicit false

namespace ConfigScript

open Reader

variable {ε : Type}

@[simp] theorem Failure.at_facing (failure : Failure ε) (decoder : Decoder ε)
    (items : List (Item ε)) : failure.at (decoder.facing items) = failure.at decoder := by
  cases failure with
  | stream error => rfl
  | cause cause => rfl

namespace Decoder

theorem leadsTo_answer (decoder : Decoder ε) (request : Request) :
    decoder.LeadsTo (decoder.answer request) := by
  cases request with
  | value schema => exact (schema.takesValue_read.isLocal _ decoder (Nat.le_refl _)).leadsTo
  | finish => exact Ends.of_finish.leadsTo

theorem leadsTo_answerAll (decoder : Decoder ε) (requests : List Request) :
    decoder.LeadsTo (decoder.answerAll requests) := by
  induction requests generalizing decoder with
  | nil => exact .refl decoder
  | cons request requests ih => exact (decoder.leadsTo_answer request).trans (ih _)

end Decoder

/-- A reader has failed once it has pulled some items, whatever is behind them. An error of the stream
is the last of them, and the first error among them. -/
structure Reader.FailsAt {α : Type} (reader : Reader ε α) (first : Decoder ε)
    (pulled : List (Item ε)) (failure : Failure ε) (last : Decoder ε) : Prop where
  read : ∀ rest, reader (first.facing (pulled ++ rest)) = (.error failure, last.facing rest)
  path : last.path = first.path.following (Item.yielded pulled)
  handedOn : ∀ error, failure = .stream error →
    ∃ events : List (Event × Path), pulled = events.map .ok ++ [.error error]

/-- A reader that reads to the end fails at some items or has pulled all. -/
theorem Reader.Ends.failsAt_or_asked {α : Type} {reader : Reader ε α} {first : Decoder ε}
    (ends : Ends reader first) :
    (∃ pulled rest failure last, first.pending = pulled ++ rest ∧
      FailsAt reader first pulled failure last) ∨
    ∃ (events : List (Event × Path)) (result : Except Cause α) (last : Decoder ε),
      first.pending = events.map .ok ∧ last.path = first.path.following events ∧
        (∀ cause, result = .error cause → cause = .endOfInput) ∧
        reader first = (result.mapError .cause, last.facing []) ∧
        ∀ error later, reader (first.facing (events.map .ok ++ .error error :: later)) =
          (.error (.stream error), last.facing later) := by
  cases ends with
  | refuted pulled cause last follows shape same =>
      refine .inl ⟨pulled.map .ok, last.pending, .cause cause, last, shape, same, ?_, nofun⟩
      rw [Item.yielded_map_ok]
      exact follows.path
  | asked pulled result last rest follows shape ends missed bare met =>
      obtain rfl | ⟨error, later, rfl⟩ := ends
      · rw [← List.append_nil (pulled.map Except.ok), Runs.eq_facing shape] at bare
        exact .inr ⟨pulled, result, last, by rw [shape, List.append_nil], follows.path, missed, bare,
          met⟩
      · refine .inl ⟨pulled.map .ok ++ [.error error], later, .stream error, last, by simp [shape],
          fun rest => ?_, ?_, fun _ same => ⟨pulled, Failure.stream.inj same ▸ rfl⟩⟩
        · rw [List.append_assoc]
          exact met error rest
        · rw [Item.yielded_append, Item.yielded_map_ok, Item.yielded_error, List.append_nil]
          exact follows.path

/-- Reading some items as a schema asks for what is behind the last of them, so that an error there
is met. -/
def ReachesEnd (schema : Schema) (items : List (Item ε)) : Prop :=
  ∀ error later, decode schema (items ++ .error error :: later) = .error (.stream error)

/-- An error of reading a whole stream is told by the items that were pulled, and is placed at the last
event among them unless it is the error that the last of them is. -/
theorem Reader.FailsAt.decode_eq {schema : Schema} {pulled left : List (Item ε)}
    {failure : Failure ε} {last : Decoder ε}
    (fails : FailsAt schema.readWhole (.ofItems (pulled ++ left)) pulled failure last) :
    (∀ rest, decode schema (pulled ++ rest) = .error (failure.at last) ∧
      (schema.readWhole (.ofItems (pulled ++ rest))).2.pending = rest) ∧
    ((∃ (events : List (Event × Path)) (error : ε), pulled = events.map .ok ++ [.error error] ∧
        failure.at last = .stream error) ∨
      ∃ cause, failure.at last =
        .mismatch ((Path.root "").following (Item.yielded pulled)) cause) := by
  have place : last.path = (Path.root "").following (Item.yielded pulled) := fails.path
  have read : ∀ rest, schema.readWhole (.ofItems (pulled ++ rest)) =
      (.error failure, last.facing rest) := fails.read
  refine ⟨fun rest => ⟨?_, ?_⟩, ?_⟩
  · rw [decode_of_readWhole_error (read rest), Failure.at_facing]
  · rw [read rest, Decoder.pending_facing]
  · rw [← place]
    cases failure with
    | stream error =>
        obtain ⟨events, handed⟩ := fails.handedOn error rfl
        exact .inl ⟨events, error, handed, rfl⟩
    | cause cause => exact .inr ⟨cause, rfl⟩

/-- The path of a decoder is that of the last event pulled, after any calls. So the errors of reading
a whole stream are placed there, apart from an error of the stream, which is handed on as the first
one. Unless the end was reached, other items behind those pulled lead to the same error, and none of
them is pulled. -/
theorem decode_placed_at_last_pulled :
    (∀ (items : List (Item ε)) (requests : List Request),
      let decoder := (Decoder.ofItems items).answerAll requests
      ∃ pulled, items = pulled ++ decoder.pending ∧
        decoder.path = (Path.root "").following (Item.yielded pulled)) ∧
    ∀ (schema : Schema) (items : List (Item ε)),
      let last := (schema.readWhole (.ofItems items)).2
      ∃ pulled, items = pulled ++ last.pending ∧
        ((∃ datum, decode schema items = .ok datum) ∨
          (∃ (events : List (Event × Path)) (error : ε),
            pulled = events.map .ok ++ [.error error] ∧
              decode schema items = .error (.stream error)) ∨
          ∃ cause, decode schema items =
            .error (.mismatch ((Path.root "").following (Item.yielded pulled)) cause)) ∧
        ∀ failure, decode schema items = .error failure →
          (pulled = items ∧ ReachesEnd schema items ∧
            ∃ path, failure = .mismatch path .endOfInput) ∨
          ∀ rest, decode schema (pulled ++ rest) = .error failure ∧
            (schema.readWhole (.ofItems (pulled ++ rest))).2.pending = rest := by
  refine ⟨fun items requests => (Decoder.ofItems items).leadsTo_answerAll requests, ?_⟩
  intro schema items last
  obtain ⟨pulled, left, failure, final, shape, fails⟩ | ⟨events, result, final, shape, place, missed,
    read, met⟩ := (schema.ends_readWhole (.ofItems items)).failsAt_or_asked
  -- The items that were pulled decide.
  · obtain rfl : items = pulled ++ left := shape
    obtain ⟨failed, reason⟩ := fails.decode_eq
    refine ⟨pulled, by rw [(failed left).2], .inr ?_, fun known same => .inr fun rest => ?_⟩
    · simp only [(failed left).1, Except.error.injEq]
      exact reason
    · rw [← same, (failed left).1]
      exact failed rest
  -- There are only events, and what is behind the last of them is asked for.
  · obtain rfl : items = events.map .ok := shape
    have reaches : ReachesEnd schema (events.map .ok : List (Item ε)) :=
      fun error later => decode_of_readWhole_error (met error later)
    refine ⟨events.map .ok, by simp only [last, read, Decoder.pending_facing, List.append_nil], ?_⟩
    cases result with
    | ok datum =>
        have accepted := decode_of_readWhole_ok read
        exact ⟨.inl ⟨datum, accepted⟩, fun failure known => by cases accepted.symm.trans known⟩
    | error cause =>
        obtain rfl := missed cause rfl
        have failed : decode schema (events.map .ok) = .error (.mismatch final.path .endOfInput) :=
          decode_of_readWhole_error read
        rw [Item.yielded_map_ok]
        refine ⟨.inr (.inr ⟨.endOfInput, ?_⟩), fun failure known => .inl ⟨rfl, reaches, ?_⟩⟩
        · rw [failed, place]
          rfl
        · exact ⟨final.path, Except.error.inj (known.symm.trans failed)⟩

/-- An error of the stream behind a value that does not fit is not met. -/
example (error : ε) : let path := (Path.root "text").push (.primitive "1")
    decode (.seq .text) [.ok (.primitive "1", path), .error error] =
      .error (.mismatch path (.mismatch "a sequence" (.primitive "1"))) :=
  rfl

end ConfigScript
