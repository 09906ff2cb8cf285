import ConfigScript.Proofs.Decode.Schema
import ConfigScript.Proofs.Item

/-!
# How reading a whole stream ends

A stream that must hold one value and nothing more is read to its end unless it is refuted before:
after some events the reader has failed, whatever follows them, or it asks for what is behind them.
There it hands on an error, and at the end of the stream it accepts the value or misses an event.
-/

set_option autoImplicit false

namespace ConfigScript

namespace Decoder

variable {ε : Type} {first middle last : Decoder ε}

/-- What calls on a decoder lead to: they have pulled the items that are no longer pending, and the
path is that of the last event among them. -/
def LeadsTo (first last : Decoder ε) : Prop :=
  ∃ pulled, first.pending = pulled ++ last.pending ∧
    last.path = first.path.following (Item.yielded pulled)

namespace LeadsTo

theorem refl (decoder : Decoder ε) : decoder.LeadsTo decoder :=
  ⟨[], rfl, rfl⟩

theorem trans (front : first.LeadsTo middle) (back : middle.LeadsTo last) : first.LeadsTo last := by
  obtain ⟨pulled, shape, place⟩ := front
  obtain ⟨more, shapeMore, placeMore⟩ := back
  refine ⟨pulled ++ more, ?_, ?_⟩
  · rw [shape, shapeMore, List.append_assoc]
  · rw [placeMore, place, Item.yielded_append, Path.following_append]

theorem pending_length_le (leads : first.LeadsTo last) :
    last.pending.length ≤ first.pending.length := by
  obtain ⟨pulled, shape, _⟩ := leads
  rw [shape, List.length_append]
  exact Nat.le_add_left _ _

end LeadsTo

theorem Follows.leadsTo {pulled : List (Event × Path)} {items rest : List (Item ε)}
    (follows : first.Follows pulled last) (shape : first.pending = pulled.map .ok ++ items)
    (left : items = rest ∨ ∃ error, items = .error error :: rest) :
    first.LeadsTo (last.facing rest) := by
  have place : (last.facing rest).path = first.path.following pulled := follows.path
  obtain rfl | ⟨error, rfl⟩ := left
  · exact ⟨pulled.map .ok, shape, by rw [place, Item.yielded_map_ok]⟩
  · refine ⟨pulled.map .ok ++ [.error error], by rw [shape]; simp, ?_⟩
    rw [place, Item.yielded_append, Item.yielded_map_ok, Item.yielded_error, List.append_nil]

end Decoder

namespace Reader

variable {ε α β : Type} {first : Decoder ε} {reader : Reader ε α} {following : α → Reader ε β}

/-- What one run of a reader shows of it that reads a stream to its end. -/
inductive Ends (reader : Reader ε α) (first : Decoder ε) : Prop where
  /-- It has failed after some events, whatever follows them. -/
  | refuted (pulled : List (Event × Path)) (cause : Cause) (last : Decoder ε) :
      first.Follows pulled last → first.pending = pulled.map .ok ++ last.pending →
      (∀ rest, reader (first.facing (pulled.map .ok ++ rest)) =
        (.error (.cause cause), last.facing rest)) → Ends reader first
  /-- It asks for what is behind some events, where there is none. -/
  | asked (pulled : List (Event × Path)) (result : Except Cause α) (last : Decoder ε)
      (rest : List (Item ε)) :
      first.Follows pulled last → first.pending = pulled.map .ok ++ rest →
      (rest = [] ∨ ∃ error later, rest = .error error :: later) →
      (∀ cause, result = .error cause → cause = .endOfInput) →
      reader (first.facing (pulled.map .ok)) = (result.mapError .cause, last.facing []) →
      (∀ error later, reader (first.facing (pulled.map .ok ++ .error error :: later)) =
        (.error (.stream error), last.facing later)) → Ends reader first

namespace Ends

theorem of_finish : Ends (finish : Reader ε Unit) first := by
  rcases first with ⟨pending, _ | ⟨event, path⟩, consumed⟩
  · rcases pending with _ | ⟨error | ⟨event, path⟩, rest⟩
    · exact .asked [] (.ok ()) _ [] (.refl _) rfl (.inl rfl) nofun rfl fun _ _ => rfl
    · exact .asked [] (.ok ()) _ _ (.refl _) rfl (.inr ⟨error, rest, rfl⟩) nofun rfl fun _ _ => rfl
    · exact .refuted [(event, path)] (.trailing event) ⟨rest, some (event, path), consumed⟩
        ⟨rfl, by simp [Decoder.held]⟩ rfl fun _ => rfl
  · exact .refuted [] (.trailing event) _ (.refl _) rfl fun _ => rfl

theorem map (ends : Ends reader first) (change : α → β) :
    Ends (do return change (← reader)) first := by
  cases ends with
  | refuted pulled cause last follows shape same =>
      exact .refuted pulled cause last follows shape fun rest => bind_of_error (same rest)
  | asked pulled result last rest follows shape ends missed bare met =>
      refine .asked pulled (result.map change) last rest follows shape ends ?_ ?_
        fun error later => bind_of_error (met error later)
      · cases result with
        | ok value => nofun
        | error cause => exact fun _ same => missed _ (congrArg Except.error (Except.error.inj same))
      · cases result with
        | ok value => exact bind_of_ok bare
        | error cause => exact bind_of_error bare

theorem leadsTo (ends : Ends reader first) : first.LeadsTo (reader first).2 := by
  cases ends with
  | refuted pulled cause last follows shape same =>
      have run := same last.pending
      rw [Runs.eq_facing shape] at run
      rw [run]
      exact follows.leadsTo shape (.inl rfl)
  | asked pulled result last rest follows shape ends missed bare met =>
      obtain rfl | ⟨error, later, rfl⟩ := ends
      · rw [← List.append_nil (pulled.map Except.ok), Runs.eq_facing shape] at bare
        rw [bare]
        exact follows.leadsTo shape (.inl rfl)
      · have run := met error later
        rw [Runs.eq_facing shape] at run
        rw [run]
        exact follows.leadsTo shape (.inr ⟨error, rfl⟩)

end Ends

theorem Runs.leadsTo (runs : Runs reader first) : first.LeadsTo (reader first).2 := by
  obtain ⟨pulled, rest, shape, follows, left⟩ := runs.exists_pulled
  exact follows.leadsTo shape (left.imp_left Eq.symm)

/-- A reader that goes on to the end after a value is one that reads to the end. -/
theorem Runs.bind_ends (front : Runs reader first)
    (back : ∀ value last, reader first = (.ok value, last) → Ends (following value) last) :
    Ends (reader >>= following) first := by
  cases front with
  | stopped pulled last rest follows shape ends bare met =>
      exact .asked pulled (.error .endOfInput) last rest follows shape ends
        (fun _ same => (Except.error.inj same).symm) (bind_of_error bare)
        fun error later => bind_of_error (met error later)
  | settled pulled result last follows shape same =>
      cases result with
      | error cause =>
          exact .refuted pulled cause last follows shape fun rest => bind_of_error (same rest)
      | ok value =>
          have run := same last.pending
          rw [eq_facing shape] at run
          cases back value last run with
          | refuted more cause final followsMore shapeMore sameMore =>
              refine .refuted (pulled ++ more) cause final (follows.trans followsMore)
                (by simp [shape, shapeMore]) fun rest => ?_
              rw [List.map_append, List.append_assoc, bind_of_ok (same _), sameMore]
          | asked more result final rest followsMore shapeMore ends missed bare met =>
              refine .asked (pulled ++ more) result final rest (follows.trans followsMore)
                (by simp [shape, shapeMore]) ends missed ?_ fun error later => ?_
              · rw [List.map_append, bind_of_ok (same _), bare]
              · rw [List.map_append, List.append_assoc, bind_of_ok (same _), met]

end Reader

open Reader

theorem Schema.ends_readWhole {ε : Type} (schema : Schema) (first : Decoder ε) :
    Ends schema.readWhole first :=
  (schema.takesValue_read.isLocal _ first (Nat.le_refl _)).bind_ends fun value _ _ =>
    Ends.of_finish.map fun _ => value

end ConfigScript
