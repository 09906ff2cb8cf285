import ConfigScript.Document
import ConfigScript.Proofs.Decode.Verdict
import ConfigScript.Proofs.Walker.Termination
import Mathlib.Tactic.Ring

/-!
# Reading a document settles

A document is read from longer and longer beginnings of its walk. Each of them either leaves the
result open or gives what the whole walk gives, and the last is long enough for every walk that
ends.
-/

set_option autoImplicit false

namespace ConfigScript

namespace Level

/-- A power that bounds the events of a value. -/
theorem eventBound_le_pow {size : Nat} (some : 0 < size) (room : Nat) :
    eventBound size room ≤ (5 * size) ^ room := by
  induction room with
  | zero => exact Nat.le_refl _
  | succ room ih =>
      have one : 1 ≤ eventBound size room := one_le_eventBound size room
      calc eventBound size (room + 1)
          = 2 * size + 2 + size * eventBound size room := by
            simp only [eventBound]
            ring
        _ ≤ 4 * (size * eventBound size room) + size * eventBound size room := by
            have := Nat.mul_le_mul_left size one
            omega
        _ = 5 * size * eventBound size room := by ring
        _ ≤ 5 * size * (5 * size) ^ room := Nat.mul_le_mul_left _ ih
        _ = (5 * size) ^ (room + 1) := by ring

end Level

namespace Document

variable {document : Document} {schema : Schema} {pulls : Nat}

theorem rounds_pos (document : Document) : 0 < document.rounds :=
  Nat.mul_pos (by omega) (by omega)

/-- The last round asks for more items than any walk that ends has. -/
theorem eventBound_lt_lastPulls (document : Document) :
    Level.eventBound document.heap.size document.options.maxDepth <
      2 ^ (document.rounds - 1) * firstPulls := by
  have some : 0 < document.heap.size := Nat.zero_lt_of_lt document.heap.length_tables_lt_size
  have few : 5 * document.heap.size ≤ 2 ^ (document.heap.size.log2 + 4) := by
    have : document.heap.size < 2 ^ (document.heap.size.log2 + 1) := Nat.lt_log2_self
    rw [show document.heap.size.log2 + 4 = document.heap.size.log2 + 1 + 3 from rfl, Nat.pow_add]
    omega
  have rounds : (document.heap.size.log2 + 4) * document.options.maxDepth < document.rounds := by
    have : document.rounds = 2 * ((document.heap.size.log2 + 4) * document.options.maxDepth) +
        4 * (document.heap.size.log2 + 4) := by
      simp only [Document.rounds]
      ring
    omega
  calc Level.eventBound document.heap.size document.options.maxDepth
      ≤ (5 * document.heap.size) ^ document.options.maxDepth := Level.eventBound_le_pow some _
    _ ≤ (2 ^ (document.heap.size.log2 + 4)) ^ document.options.maxDepth :=
        Nat.pow_le_pow_left few _
    _ = 2 ^ ((document.heap.size.log2 + 4) * document.options.maxDepth) := (Nat.pow_mul ..).symm
    _ ≤ 2 ^ (document.rounds - 1) := Nat.pow_le_pow_right (by omega) (by omega)
    _ < 2 ^ (document.rounds - 1) * firstPulls := by
        have := Nat.two_pow_pos (document.rounds - 1)
        simp only [firstPulls]
        omega

/-- Events are the same in a stream that fails for other reasons. -/
theorem mapError_items {ε δ : Type} (f : ε → δ) (path : Path) (events : List Event) :
    (path.items events : List (Item ε)).map (Except.mapError f) =
      (path.along events).map .ok := by
  simp [Path.items_eq_map_along, Except.mapError]

theorem upTo_of_finished {walker : Walker} (finished : (walker.after pulls).next? = none) :
    walker.upTo pulls = (walker.items pulls).map (Except.mapError .invalid) := by
  simp [Walker.upTo, Walker.isFinished, finished]

/-- A stream without an error is no reason to ask for more. -/
theorem settle?_events_ne_none (schema : Schema) (events : List (Event × Path)) :
    settle? (decode schema (events.map .ok)) ≠ none := by
  intro unsettled
  cases verdict Interruption schema events with
  | refuted event path cause member refuted =>
      have read := refuted []
      rw [List.append_nil] at read
      rw [read] at unsettled
      cases unsettled
  | undecided accepted met =>
      cases read : decode schema (events.map Except.ok) with
      | ok value =>
          rw [read] at unsettled
          cases unsettled
      | error failure =>
          cases failure with
          | stream error => exact accepted error read
          | mismatch path cause =>
              rw [read] at unsettled
              cases unsettled

/-- A stream that fails gives its error, unless the events before it are enough to refute it. -/
theorem settle?_failed (schema : Schema) (events : List (Event × Path)) (invalid : Invalid) :
    settle? (decode schema (events.map .ok ++ [.error (.invalid invalid)])) =
        some (.error (.invalidStream invalid.path invalid.fault)) ∨
      ∃ event path cause, (event, path) ∈ events ∧ ∀ rest : List (Item Interruption),
        decode schema (events.map .ok ++ rest) = .error (.mismatch path cause) := by
  cases verdict Interruption schema events with
  | refuted event path cause member refuted =>
      exact .inr ⟨event, path, cause, member, refuted⟩
  | undecided accepted met =>
      rw [met]
      exact .inl rfl

/-- A walk that has ended settles what the document is. -/
theorem readWithin?_ne_none (finished : (document.walker.after pulls).next? = none) :
    document.readWithin? schema pulls ≠ none := by
  unfold readWithin?
  rw [upTo_of_finished finished]
  obtain ⟨events, shape | ⟨_, fault, shape⟩⟩ := document.walker.exists_events pulls
  · rw [shape, mapError_items]
    exact settle?_events_ne_none schema _
  · rw [shape, List.map_append, mapError_items]
    intro unsettled
    rcases settle?_failed schema (document.walker.path.along events)
      ⟨document.walker.path.pushAll events, fault⟩ with met | ⟨event, path, cause, _, refuted⟩
    · cases unsettled.symm.trans met
    · rw [refuted] at unsettled
      cases unsettled

/-- A beginning of a walk leaves open what the document is, or settles it as the whole walk does. -/
theorem readWithin?_eq_or (finished : (document.walker.after pulls).next? = none) (fewer : Nat) :
    document.readWithin? schema fewer = none ∨
      document.readWithin? schema fewer = document.readWithin? schema pulls := by
  by_cases early : (document.walker.after fewer).next? = none
  · right
    have same : document.walker.items fewer = document.walker.items pulls := by
      rw [← Walker.items_of_after_finished pulls early, Nat.add_comm,
        Walker.items_of_after_finished fewer finished]
    simp only [readWithin?, upTo_of_finished early, upTo_of_finished finished, same]
  · obtain ⟨events, shape | ⟨ended, _⟩⟩ := document.walker.exists_events fewer
    · have order : fewer ≤ pulls := by
        by_contra later
        exact early (Walker.next?_after_of_le (Nat.le_of_not_le later) finished)
      obtain ⟨more, rfl⟩ := Nat.exists_eq_add_of_le order
      have start : document.walker.upTo fewer =
          (document.walker.path.along events).map .ok ++ [.error .more] := by
        simp only [Walker.upTo, Walker.isFinished, Option.isNone_iff_eq_none, early, if_false, shape,
          mapError_items]
      cases verdict Interruption schema (document.walker.path.along events) with
      | refuted event path cause member refuted =>
          right
          simp only [readWithin?, start, refuted, upTo_of_finished finished, Walker.items_add, shape,
            List.map_append, mapError_items]
      | undecided accepted met =>
          left
          simp [readWithin?, start, met, settle?]
    · exact absurd ended early

theorem readDoubling?_eq {result : Except Error Datum} {rounds first last : Nat}
    (settles : ∀ pulls, document.readWithin? schema pulls = none ∨
      document.readWithin? schema pulls = some result)
    (few : last < rounds) (settled : document.readWithin? schema (2 ^ last * first) ≠ none) :
    document.readDoubling? schema rounds first = some result := by
  induction rounds generalizing first last with
  | zero => cases few
  | succ rounds ih =>
      rw [readDoubling?]
      rcases settles first with none | same
      · cases last with
        | zero => exact absurd (by simpa using none) settled
        | succ last =>
            rw [none]
            refine ih (Nat.lt_of_succ_lt_succ few) ?_
            rwa [← Nat.mul_assoc, ← Nat.pow_succ]
      · rw [same]

/-- A document whose walk ends is read as its whole walk decides. -/
theorem read?_of_finished (schema : Schema)
    (finished : (document.walker.after pulls).next? = none) :
    document.read? schema = document.readWithin? schema pulls := by
  have free : ¬ document.walker.EntersRing :=
    fun enters => enters.next?_ne_none pulls finished
  have ended : (document.walker.after (2 ^ (document.rounds - 1) * firstPulls)).next? = none :=
    Walker.next?_after_of_le document.eventBound_lt_lastPulls (Walker.settled free).2
  obtain ⟨result, settled⟩ := Option.ne_none_iff_exists'.1 (readWithin?_ne_none finished)
  rw [settled]
  refine readDoubling?_eq (fun fewer => settled ▸ readWithin?_eq_or finished fewer) ?_
    (readWithin?_ne_none ended)
  exact Nat.sub_one_lt_of_lt document.rounds_pos

/-- The items of a walk that ends decide what the document is. -/
theorem read?_eq_settle? (schema : Schema)
    (finished : (document.walker.after pulls).next? = none) :
    document.read? schema =
      settle? (decode schema ((document.walker.items pulls).map (Except.mapError .invalid))) := by
  rw [read?_of_finished schema finished, readWithin?, upTo_of_finished finished]

/-- A document whose walk is that of some events is what they are read as. -/
theorem read?_of_events {events : List Event} (schema : Schema)
    (finished : (document.walker.after pulls).next? = none)
    (shape : document.walker.items pulls = (Path.root document.source).items events) :
    document.read? schema = settle? (decode schema ((Path.root document.source).items events)) := by
  rw [read?_eq_settle? schema finished, shape, mapError_items, ← Path.items_eq_map_along]

/-- A document whose walk fails is not read, by the error of the walk or by an event before it. -/
theorem read?_of_failed {events : List Event} {invalid : Invalid} (schema : Schema)
    (finished : (document.walker.after pulls).next? = none)
    (shape : document.walker.items pulls =
      (Path.root document.source).items events ++ [.error invalid]) :
    document.read? schema = some (.error (.invalidStream invalid.path invalid.fault)) ∨
      ∃ event path cause, (event, path) ∈ (Path.root document.source).along events ∧
        (∀ rest : List (Item Interruption),
          decode schema ((Path.root document.source).items events ++ rest) =
            .error (.mismatch path cause)) ∧
        document.read? schema = some (.error (.deserialize path cause)) := by
  have settled := read?_eq_settle? schema finished
  rw [shape, List.map_append, mapError_items] at settled
  rw [Path.items_eq_map_along]
  rcases settle?_failed schema ((Path.root document.source).along events) invalid with
    met | ⟨event, path, cause, member, refuted⟩
  · exact .inl (settled.trans met)
  · refine .inr ⟨event, path, cause, member, refuted, settled.trans ?_⟩
    rw [refuted]
    rfl

end Document

end ConfigScript
