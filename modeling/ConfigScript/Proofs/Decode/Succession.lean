import ConfigScript.Proofs.Decode.Agreement

/-!
# Values one after another

A stream may hold several values. Reading one of them never pulls an item behind it, so each value
of a stream is read as it would be on its own, and the end is met when nothing is left.
-/

set_option autoImplicit false

namespace ConfigScript

variable {ε α : Type}

/-- The items that a decoder has not consumed, the event that it has looked at included. -/
def Decoder.upcoming (decoder : Decoder ε) : List (Item ε) :=
  (decoder.peeked.map .ok).toList ++ decoder.pending

namespace Reader

variable {reader : Reader ε α} {decoder : Decoder ε} {items : List (Item ε)}

/-- What a reader gives, with a cause placed at the last event that was pulled. -/
def located (reader : Reader ε α) (decoder : Decoder ε) : Except (DecodeError ε) α :=
  match reader decoder with
  | (.ok value, _) => .ok value
  | (.error failure, last) => .error (failure.at last)

/-- Whether the next event has been looked at makes no difference. -/
theorem Looks.eq_of_upcoming (looks : Looks reader) (next : decoder.upcoming = items) :
    reader decoder = reader ⟨items, none, decoder.consumed⟩ := by
  subst next
  rcases decoder with ⟨pending, _ | ⟨event, path⟩, consumed⟩
  · rfl
  · have looked : peek ⟨.ok (event, path) :: pending, none, consumed⟩ =
        (.ok event, (⟨pending, some (event, path), consumed⟩ : Decoder ε)) := rfl
    change _ = reader ⟨.ok (event, path) :: pending, none, consumed⟩
    conv_rhs => rw [← looks]
    rw [bind_of_ok looked]

/-- A reader of a value has pulled the first event when it fails. -/
theorem TakesValue.pending_length_lt (takes : TakesValue reader) (event : Event × Path)
    (items : List (Item ε)) (consumed : Path) :
    (reader ⟨.ok event :: items, none, consumed⟩).2.pending.length < items.length + 1 := by
  have seen : reader ⟨items, some event, consumed⟩ = reader ⟨.ok event :: items, none, consumed⟩ :=
    takes.looks.eq_of_upcoming rfl
  have fewer := (takes.isLocal _ ⟨items, some event, consumed⟩ (Nat.le_refl _)).pending_length_le
  rw [seen] at fewer
  exact Nat.lt_succ_of_le fewer

/-- The result of reading one value, how many of its events it takes, and where this ends. -/
theorem Agrees.exists_result {reader : Reader ε Datum} {interpretation : Interpretation}
    (agrees : Agrees reader interpretation) {value : List (Event × Path)}
    (whole : WellFormed (value.map (·.1))) :
    ∃ (result : Except Cause Datum) (used left : List (Event × Path)), value = used ++ left ∧
      ∀ decoder rest, decoder.upcoming = value.map .ok ++ rest → ∃ last,
        reader decoder = (result.mapError .cause, last) ∧ last.pending = left.map .ok ++ rest ∧
          used.getLast?.map (·.2) = some last.path ∧
          ∀ datum, result = .ok datum → left = [] ∧ last.peeked = none := by
  obtain ⟨tree, shape⟩ := whole
  have looks := agrees.takesValue.looks
  have takes := agrees.takes tree
  have some : value ≠ [] := by
    rintro rfl
    exact tree.events_ne_nil shape
  cases result : interpretation tree with
  | ok datum =>
      rw [result] at takes
      refine ⟨.ok datum, value, [], by simp, fun decoder rest next => ?_⟩
      refine ⟨⟨rest, none, decoder.consumed.following value⟩, ?_, rfl, ?_, fun _ _ => ⟨rfl, rfl⟩⟩
      · rw [looks.eq_of_upcoming next]
        exact takes value shape.symm rest decoder.consumed
      · exact Path.map_getLast?_following _ some
  | error cause =>
      rw [result] at takes
      obtain ⟨usedEvents, leftEvents, split, fails⟩ := takes
      obtain ⟨used, left, rfl, rfl, rfl⟩ := List.map_eq_append_iff.1 (shape.symm.trans split)
      have pulled : used ≠ [] := by
        rintro rfl
        obtain ⟨event, others, rfl⟩ := List.exists_cons_of_ne_nil some
        obtain ⟨last, read, pending, _⟩ := fails [] (event :: others) rfl rfl [] (.root "")
        have fewer := agrees.takesValue.pending_length_lt event (others.map .ok) (.root "")
        rw [List.append_nil] at read
        rw [show reader ⟨.ok event :: others.map .ok, none, .root ""⟩ = _ from read, pending] at fewer
        simp at fewer
      refine ⟨.error cause, used, left, rfl, fun decoder rest next => ?_⟩
      obtain ⟨last, read, pending, place⟩ := fails used left rfl rfl rest decoder.consumed
      refine ⟨last, ?_, pending, ?_, fun _ same => ?_⟩
      · rw [looks.eq_of_upcoming next, List.map_append, List.append_assoc]
        exact read
      · rw [place]
        exact Path.map_getLast?_following _ pulled
      · cases same

theorem finish_eq_ok_iff : (finish decoder).1 = .ok () ↔ decoder.upcoming = [] := by
  rcases decoder with ⟨pending, _ | ⟨event, path⟩, consumed⟩
  · rcases pending with _ | ⟨error | ⟨event, path⟩, rest⟩
    · exact iff_of_true rfl rfl
    · exact iff_of_false nofun nofun
    · exact iff_of_false nofun nofun
  · exact iff_of_false nofun nofun

end Reader

open Reader

/-- Reading values one after another leaves what is behind them. -/
theorem upcoming_of_mapM_read {parts : List (Schema × List (Event × Path))}
    (whole : ∀ part ∈ parts, WellFormed (part.2.map (·.1))) {decoder last : Decoder ε}
    {data : List Datum} {rest : List (Item ε)}
    (next : decoder.upcoming = (parts.flatMap (·.2)).map .ok ++ rest)
    (read : (parts.map (·.1)).mapM Schema.read decoder = (.ok data, last)) :
    last.upcoming = rest := by
  induction parts generalizing decoder data with
  | nil =>
      cases read
      exact next
  | cons part parts ih =>
      obtain ⟨schema, value⟩ := part
      obtain ⟨wholeFirst, wholeRest⟩ := List.forall_mem_cons.1 whole
      obtain ⟨result, used, left, _, reads⟩ :=
        (schema.agrees_interpret (ε := ε)).exists_result wholeFirst
      rw [List.flatMap_cons, List.map_append, List.append_assoc] at next
      obtain ⟨middle, readFirst, pending, _, ended⟩ := reads decoder _ next
      rw [List.map_cons, List.mapM_cons] at read
      obtain ⟨datum, between, front, back⟩ := exists_of_bind_ok read
      obtain ⟨others, final, readRest, same⟩ := exists_of_bind_ok back
      cases same
      rw [readFirst] at front
      cases result with
      | error cause => cases front
      | ok known =>
          cases front
          obtain ⟨rfl, fresh⟩ := ended datum rfl
          refine ih wholeRest ?_ readRest
          rw [Decoder.upcoming, fresh, pending]
          rfl

/-- A value is read as on its own wherever it is next. -/
theorem located_read_eq_decode (schema : Schema) {value : List (Event × Path)}
    (whole : WellFormed (value.map (·.1))) {decoder : Decoder ε} {rest : List (Item ε)}
    (next : decoder.upcoming = value.map .ok ++ rest) :
    located schema.read decoder = decode schema (value.map .ok) := by
  obtain ⟨result, used, left, _, reads⟩ :=
    (schema.agrees_interpret (ε := ε)).exists_result whole
  obtain ⟨last, read, pending, place, ended⟩ := reads decoder rest next
  obtain ⟨lastAlone, readAlone, pendingAlone, placeAlone, endedAlone⟩ :=
    reads (.ofItems (value.map .ok)) [] (List.append_nil _).symm
  unfold located
  rw [read]
  cases result with
  | ok datum =>
      obtain ⟨rfl, fresh⟩ := endedAlone datum rfl
      have finished : (finish lastAlone).1 = .ok () := by
        rw [finish_eq_ok_iff, Decoder.upcoming, fresh, pendingAlone]
        rfl
      exact (decode_of_ok readAlone (Prod.ext finished rfl)).symm
  | error cause =>
      have same : last.path = lastAlone.path := Option.some.inj (place.symm.trans placeAlone)
      rw [decode_of_error readAlone]
      exact congrArg (fun path => Except.error (DecodeError.mismatch path cause)) same

/-- Reading a value takes its events only. The result does not depend on what follows, no item of it
is pulled, and after a success the events of the value are consumed and none is looked at. Values one
after another are each read as on their own, and the end follows the last of them exactly when
nothing else does. -/
theorem read_of_wellFormed :
    (∀ (schema : Schema) (value : List (Event × Path)), WellFormed (value.map (·.1)) →
      ∃ (result : Except Cause Datum) (used left : List (Event × Path)), value = used ++ left ∧
        ∀ (decoder : Decoder ε) rest, decoder.upcoming = value.map .ok ++ rest → ∃ last,
          schema.read decoder = (result.mapError .cause, last) ∧
            last.pending = left.map .ok ++ rest ∧
            used.getLast?.map (·.2) = some last.path ∧
            ∀ datum, result = .ok datum → left = [] ∧ last.peeked = none) ∧
      ∀ parts : List (Schema × List (Event × Path)),
        (∀ part ∈ parts, WellFormed (part.2.map (·.1))) → ∀ rest : List (Item ε),
        let stream := Decoder.ofItems ((parts.flatMap (·.2)).map .ok ++ rest)
        (∀ before schema value after, parts = before ++ (schema, value) :: after →
          ∀ data middle, (before.map (·.1)).mapM Schema.read stream = (.ok data, middle) →
            located schema.read middle = decode schema (value.map .ok)) ∧
          ∀ data last, (parts.map (·.1)).mapM Schema.read stream = (.ok data, last) →
            ((finish last).1 = .ok () ↔ rest = []) := by
  refine ⟨fun schema value whole => (schema.agrees_interpret).exists_result whole, ?_⟩
  intro parts whole rest stream
  constructor
  · rintro before schema value after rfl data middle read
    have wholeBefore : ∀ part ∈ before, WellFormed (part.2.map (·.1)) :=
      fun part member => whole part (List.mem_append_left _ member)
    have wholeValue : WellFormed (value.map (·.1)) := whole (schema, value) (by simp)
    have next : stream.upcoming = (before.flatMap (·.2)).map .ok ++
        (value.map .ok ++ ((after.flatMap (·.2)).map .ok ++ rest)) := by
      simp [stream, Decoder.upcoming, Decoder.ofItems]
    exact located_read_eq_decode schema wholeValue (upcoming_of_mapM_read wholeBefore next read)
  · intro data last read
    rw [finish_eq_ok_iff, upcoming_of_mapM_read whole rfl read]

/-- A list behind a truth value is read as on its own, whatever error follows it. -/
theorem read_list_of_flag_before :
    let flag := (Path.root "text").along [.primitive "true"]
    let ports := (Path.root "text").along [.arrayOpen, .primitive "80", .arrayClose]
    let stream : Decoder String := .ofItems ((flag ++ ports).map .ok ++ [.error "broken"])
    WellFormed (flag.map (·.1)) ∧ WellFormed (ports.map (·.1)) ∧
      ∃ middle last, [Schema.bool].mapM Schema.read stream = (.ok [.bool true], middle) ∧
        (Schema.seq .text).read middle = (.ok (.list [.text "80"]), last) ∧
        last.pending = [.error "broken"] ∧ last.peeked = none ∧
        located (Schema.seq .text).read middle = decode (.seq .text) (ports.map .ok) := by
  intro flag ports stream
  have wholeFlag : WellFormed (flag.map (·.1)) := ⟨.primitive "true", rfl⟩
  have wholePorts : WellFormed (ports.map (·.1)) := ⟨.array [.primitive "80"], rfl⟩
  let parts := [(Schema.bool, flag), (Schema.seq .text, ports)]
  have whole : ∀ part ∈ parts, WellFormed (part.2.map (·.1)) := by
    simpa [parts] using ⟨wholeFlag, wholePorts⟩
  have alone := ((read_of_wellFormed (ε := String)).2 parts whole [.error "broken"]).1
    [(.bool, flag)] (.seq .text) ports [] rfl
  exact ⟨wholeFlag, wholePorts, _, _, rfl, rfl, rfl, rfl, alone _ _ rfl⟩

end ConfigScript
