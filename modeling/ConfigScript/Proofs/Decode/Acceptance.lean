import ConfigScript.Proofs.Decode.Succession

/-!
# What is accepted as a value of any form

A reader that succeeds has taken some events, and its result says which. For values of any form they
are the events of a tree, so nothing but the event grammar is accepted, and what a tree denotes is
read from it.
-/

set_option autoImplicit false

namespace ConfigScript

namespace Reader

variable {ε α β σ : Type} {reader : Reader ε α} {following : α → Reader ε β}

/-- Whenever the reader succeeds, its result and the events that it has taken are related. -/
def Yields (reader : Reader ε α) (related : α → List Event → Prop) : Prop :=
  ∀ ⦃decoder : Decoder ε⦄ ⦃value last⦄, reader decoder = (.ok value, last) →
    ∃ pulled : List (Event × Path), decoder.upcoming = pulled.map .ok ++ last.upcoming ∧
      related value (pulled.map (·.1))

namespace Yields

variable {related : α → List Event → Prop} {other : β → List Event → Prop}

theorem of_pure {value : α} (holds : related value []) :
    Yields (Reader.pure value : Reader ε α) related := by
  intro decoder result last read
  cases read
  exact ⟨[], rfl, holds⟩

theorem of_fail (cause : Cause) : Yields (fail cause : Reader ε α) related := by
  intro decoder value last read
  cases read

theorem bind (front : Yields reader related)
    (back : ∀ value events, related value events →
      Yields (following value) fun result more => other result (events ++ more)) :
    Yields (reader >>= following) other := by
  intro decoder result last read
  obtain ⟨value, middle, first, second⟩ := exists_of_bind_ok read
  obtain ⟨pulled, upcoming, holds⟩ := front first
  obtain ⟨more, upcomingMore, holdsAll⟩ := back value _ holds second
  refine ⟨pulled ++ more, ?_, ?_⟩
  · rw [upcoming, upcomingMore, List.map_append, List.append_assoc]
  · rwa [List.map_append]

theorem of_peek : Yields (peek : Reader ε Event) fun _ events => events = [] := by
  intro decoder event last read
  refine ⟨[], ?_, rfl⟩
  rcases decoder with ⟨_ | ⟨error | item, rest⟩, _ | held, consumed⟩ <;> cases read <;> rfl

theorem of_next : Yields (next : Reader ε Event) fun event events => events = [event] := by
  intro decoder event last read
  rcases decoder with ⟨_ | ⟨error | item, rest⟩, _ | held, consumed⟩ <;> cases read
  · exact ⟨[held], rfl, rfl⟩
  · exact ⟨[held], rfl, rfl⟩
  · exact ⟨[item], rfl, rfl⟩
  · exact ⟨[held], rfl, rfl⟩

theorem next_bind {step : Event → Reader ε β}
    (back : ∀ event, Yields (step event) fun result more => other result (event :: more)) :
    Yields (next >>= step) other := by
  refine of_next.bind fun event events taken => ?_
  subst taken
  exact back event

theorem peek_bind {step : Event → Reader ε β} (back : ∀ event, Yields (step event) other) :
    Yields (peek >>= step) other := by
  refine of_peek.bind fun event events taken => ?_
  subst taken
  exact back event

theorem expect (expected : Event) :
    Yields (expect expected : Reader ε Unit) fun _ events => events = [expected] := by
  refine next_bind fun event => ?_
  split
  · next same => exact of_pure (by rw [same])
  · exact of_fail _

theorem map (yields : Yields reader related) {f : α → β}
    (holds : ∀ value events, related value events → other (f value) events) :
    Yields (do return f (← reader)) other := by
  refine yields.bind fun value events first => of_pure ?_
  rw [List.append_nil]
  exact holds value events first

theorem iterateWithin {step : σ → Reader ε (Option σ)} {reached done : σ → List Event → Prop}
    (steps : ∀ state before, reached state before → Yields (step state) fun next events =>
      match next with
      | some following => reached following (before ++ events)
      | none => done state (before ++ events)) (rounds : Nat) {state : σ} {before : List Event}
    (start : reached state before) :
    Yields (iterateWithin step rounds state) fun last events => done last (before ++ events) := by
  induction rounds generalizing state before with
  | zero => exact of_fail _
  | succ rounds ih =>
      rw [iterateWithin_succ]
      refine (steps state before start).bind fun next events holds => ?_
      cases next with
      | none => exact of_pure (by rwa [List.append_nil])
      | some following => simpa only [List.append_assoc] using ih holds

/-- What each round of a loop keeps holds of all events when the loop ends. -/
theorem iterate (reached done : σ → List Event → Prop) {step : σ → Reader ε (Option σ)}
    (steps : ∀ state before, reached state before → Yields (step state) fun next events =>
      match next with
      | some following => reached following (before ++ events)
      | none => done state (before ++ events)) {state : σ} (start : reached state []) :
    Yields (iterate step state) done := by
  intro decoder value last read
  exact iterateWithin steps (decoder.remaining + 1) start read

theorem collect {next? : Reader ε (Option α)} (yields : Yields next? fun next events =>
      match next with
      | some value => related value events
      | none => events = []) :
    Yields (collect next?) fun values events =>
      ∃ parts, List.Forall₂ related values parts ∧ parts.flatten = events := by
  -- The values are found newest first.
  let split := fun (found : List α) (events : List Event) =>
    ∃ parts, List.Forall₂ related found.reverse parts ∧ parts.flatten = events
  refine (iterate split split ?_ ⟨[], .nil, rfl⟩).map fun found events holds => holds
  intro found before kept
  obtain ⟨parts, held, rfl⟩ := kept
  refine yields.map fun next events holds => ?_
  cases next with
  | none =>
      subst holds
      exact ⟨parts, held, (List.append_nil _).symm⟩
  | some value =>
      refine ⟨parts ++ [events], ?_, by simp⟩
      rw [List.reverse_cons]
      exact List.rel_append held (.cons holds .nil)

theorem elements {element : Reader ε α} (yields : Yields element related) :
    Yields (elements element) fun values events =>
      ∃ parts, List.Forall₂ related values parts ∧ parts.flatten = events := by
  refine collect (peek_bind fun event => ?_)
  split
  · exact of_pure rfl
  · exact yields.map fun value events holds => holds

theorem nextKey : Yields (nextKey : Reader ε (Option String)) fun name events =>
    match name with
    | some text => events = [.key text]
    | none => events = [] := by
  refine peek_bind fun event => ?_
  split
  · exact of_pure rfl
  · refine next_bind fun event => ?_
    cases event with
    | key text => exact of_pure rfl
    | _ => exact of_fail _

/-- An entry is its key and the events of its value. -/
def OfEntry (related : α → List Event → Prop) (entry : String × α) (events : List Event) : Prop :=
  ∃ rest, related entry.2 rest ∧ .key entry.1 :: rest = events

theorem entries {value : Reader ε α} (yields : Yields value related) :
    Yields (entries .ok value) fun found events =>
      ∃ parts, List.Forall₂ (OfEntry related) found parts ∧ parts.flatten = events := by
  refine collect (nextKey.bind fun name events named => ?_)
  cases name with
  | none =>
      subst named
      exact of_pure rfl
  | some text =>
      subst named
      exact yields.map fun value events holds => ⟨events, holds, rfl⟩

end Yields

/-- A value that some events denote. -/
def Denoted (value : Untyped) (events : List Event) : Prop :=
  ∃ tree : Tree, tree.events = events ∧ tree.toUntyped = value

theorem exists_items_of_denoted {values : List Untyped} {parts : List (List Event)}
    (denoted : List.Forall₂ Denoted values parts) :
    ∃ trees, Tree.itemsEvents trees = parts.flatten ∧ Tree.itemsToUntyped trees = values := by
  induction denoted with
  | nil => exact ⟨[], rfl, rfl⟩
  | cons first _ ih =>
      obtain ⟨tree, rfl, rfl⟩ := first
      obtain ⟨trees, shape, rfl⟩ := ih
      exact ⟨tree :: trees, by rw [Tree.itemsEvents, shape, List.flatten_cons], rfl⟩

theorem exists_entries_of_denoted {found : List (String × Untyped)} {parts : List (List Event)}
    (denoted : List.Forall₂ (Yields.OfEntry Denoted) found parts) :
    ∃ trees, Tree.entriesEvents trees = parts.flatten ∧ Tree.entriesToUntyped trees = found := by
  induction denoted with
  | nil => exact ⟨[], rfl, rfl⟩
  | @cons entry _ _ _ first _ ih =>
      obtain ⟨_, ⟨tree, rfl, same⟩, rfl⟩ := first
      obtain ⟨trees, shape, rfl⟩ := ih
      refine ⟨(entry.1, tree) :: trees, ?_, ?_⟩
      · rw [Tree.entriesEvents, shape, List.flatten_cons, List.cons_append]
      · rw [Tree.entriesToUntyped, same]

theorem yields_untypedAfter {part : Reader ε Untyped} (yields : Yields part Denoted)
    (event : Event) :
    Yields (untypedAfter part event) fun value events => Denoted value (event :: events) := by
  cases event with
  | primitive text => exact .of_pure ⟨.primitive text, rfl, rfl⟩
  | key | objectClose | arrayClose => exact .of_fail _
  | typeTag name =>
      refine yields.map fun value events denoted => ?_
      obtain ⟨tree, rfl, rfl⟩ := denoted
      exact ⟨.tagged name tree, rfl, rfl⟩
  | objectOpen =>
      refine yields.entries.bind fun found events denoted => ?_
      refine (Yields.expect _).bind fun _ close closed => .of_pure ?_
      obtain ⟨parts, each, rfl⟩ := denoted
      obtain ⟨trees, shape, rfl⟩ := exists_entries_of_denoted each
      exact ⟨.object trees, by rw [Tree.events, shape, closed, List.append_nil], rfl⟩
  | arrayOpen =>
      refine yields.elements.bind fun values events denoted => ?_
      refine (Yields.expect _).bind fun _ close closed => .of_pure ?_
      obtain ⟨parts, each, rfl⟩ := denoted
      obtain ⟨trees, shape, rfl⟩ := exists_items_of_denoted each
      exact ⟨.array trees, by rw [Tree.events, shape, closed, List.append_nil], rfl⟩

/-- A value of any form has been read from the events of a tree that denotes it. -/
theorem yields_untyped : Yields (untyped : Reader ε Untyped) Denoted := by
  have within : ∀ depth, Yields (untypedWithin depth : Reader ε Untyped) Denoted := by
    intro depth
    induction depth with
    | zero => exact .of_fail _
    | succ depth ih => exact .next_bind fun event => yields_untypedAfter ih event
  exact fun decoder _ _ read => within (decoder.remaining + 1) read

end Reader

open Reader

variable {ε : Type}

theorem exists_of_decode_ok {schema : Schema} {items : List (Item ε)} {datum : Datum}
    (decoded : decode schema items = .ok datum) :
    ∃ last, schema.read (.ofItems items) = (.ok datum, last) ∧ last.upcoming = [] := by
  rcases read : schema.read (.ofItems items) with ⟨failure | value, last⟩
  · rw [decode_of_error read] at decoded
    cases decoded
  · rcases ended : finish last with ⟨failure | _, final⟩
    · rw [decode_of_finish read ended] at decoded
      cases decoded
    · rw [decode_of_ok read ended] at decoded
      cases decoded
      exact ⟨last, rfl, finish_eq_ok_iff.1 (by rw [ended])⟩

/-- A schema of values of any form, with what is made of the value. -/
structure Schema.IsOfAnyForm (ε : Type) (schema : Schema) (result : Untyped → Datum) : Prop where
  reads : schema.read = do return result (← (Reader.untyped : Reader ε Untyped))
  interprets : ∀ tree, schema.interpret tree = .ok (result tree.toUntyped)

namespace Schema.IsOfAnyForm

variable {schema : Schema} {result : Untyped → Datum} {datum : Datum}

theorem of_untyped : IsOfAnyForm ε .untyped .untyped :=
  ⟨by rw [Schema.read], fun _ => rfl⟩

theorem of_json : IsOfAnyForm ε .json fun value => .json value.toJson :=
  ⟨by rw [Schema.read], fun _ => rfl⟩

/-- What has been made of a stream was read from the events of a tree and nothing else. -/
theorem exists_tree (anyForm : schema.IsOfAnyForm ε result) {items : List (Item ε)}
    (decoded : decode schema items = .ok datum) :
    ∃ (events : List (Event × Path)) (tree : Tree), items = events.map .ok ∧
      tree.events = events.map (·.1) ∧ datum = result tree.toUntyped := by
  obtain ⟨last, read, ended⟩ := exists_of_decode_ok decoded
  have yields : Yields (schema.read : Reader ε Datum) fun datum events =>
      ∃ tree : Tree, tree.events = events ∧ datum = result tree.toUntyped := by
    rw [anyForm.reads]
    refine yields_untyped.map ?_
    intro value events denoted
    obtain ⟨tree, shape, rfl⟩ := denoted
    exact ⟨tree, shape, rfl⟩
  obtain ⟨pulled, upcoming, tree, shape, same⟩ := yields read
  rw [ended, List.append_nil] at upcoming
  exact ⟨pulled, tree, upcoming, shape, same⟩

variable {events : List (Event × Path)}

theorem decode_eq_ok_iff (anyForm : schema.IsOfAnyForm ε result) :
    decode schema (events.map .ok : List (Item ε)) = .ok datum ↔
      ∃ tree : Tree, tree.events = events.map (·.1) ∧ datum = result tree.toUntyped := by
  constructor
  · intro decoded
    obtain ⟨pulled, tree, same, shape, meant⟩ := anyForm.exists_tree decoded
    obtain rfl : events = pulled := (List.map_inj_right fun _ _ => Except.ok.inj).1 same
    exact ⟨tree, shape, meant⟩
  · intro meant
    obtain ⟨tree, shape, rfl⟩ := meant
    exact (decode_eq_ok_iff_of_events shape.symm).2 (anyForm.interprets tree)

theorem exists_decode_iff (anyForm : schema.IsOfAnyForm ε result) :
    (∃ datum, decode schema (events.map .ok : List (Item ε)) = .ok datum) ↔
      WellFormed (events.map (·.1)) := by
  constructor
  · intro accepted
    obtain ⟨datum, decoded⟩ := accepted
    obtain ⟨tree, shape, _⟩ := anyForm.decode_eq_ok_iff.1 decoded
    exact ⟨tree, shape⟩
  · intro wellFormed
    obtain ⟨tree, shape⟩ := wellFormed
    exact ⟨_, anyForm.decode_eq_ok_iff.2 ⟨tree, shape, rfl⟩⟩

end Schema.IsOfAnyForm

/-- A sequence of events is accepted as a value of any form exactly when it presents one value, and
the result is what its tree denotes. -/
theorem decode_of_any_form (events : List (Event × Path)) :
    let items : List (Item ε) := events.map .ok
    let whole := WellFormed (events.map (·.1))
    ((∃ datum, decode .untyped items = .ok datum) ↔ whole) ∧
      ((∃ datum, decode .json items = .ok datum) ↔ whole) ∧
      (∀ datum, decode .untyped items = .ok datum ↔
        ∃ tree : Tree, tree.events = events.map (·.1) ∧ datum = .untyped tree.toUntyped) ∧
      ∀ datum, decode .json items = .ok datum ↔
        ∃ (tree : Tree) (json : Json), tree.events = events.map (·.1) ∧ tree.Denotes json ∧
          datum = .json json := by
  intro items whole
  refine ⟨Schema.IsOfAnyForm.of_untyped.exists_decode_iff,
    Schema.IsOfAnyForm.of_json.exists_decode_iff,
    fun datum => Schema.IsOfAnyForm.of_untyped.decode_eq_ok_iff, fun datum => ?_⟩
  have decoded : decode .json items = .ok datum ↔
      ∃ tree : Tree, tree.events = events.map (·.1) ∧ datum = .json tree.toJson :=
    Schema.IsOfAnyForm.of_json.decode_eq_ok_iff
  rw [decoded]
  constructor
  · intro meant
    obtain ⟨tree, shape, rfl⟩ := meant
    exact ⟨tree, tree.toJson, shape, (tree.denotes_iff _).2 rfl, rfl⟩
  · intro meant
    obtain ⟨tree, json, shape, denotes, rfl⟩ := meant
    exact ⟨tree, shape, congrArg Datum.json ((tree.denotes_iff json).1 denotes).symm⟩

end ConfigScript
