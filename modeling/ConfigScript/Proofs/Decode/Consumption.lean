import ConfigScript.Proofs.Decode.Schema
import ConfigScript.Proofs.Item

/-!
# What a reader makes of some events

`Takes reader events result` says what a reader does when some events are next, whatever follows
them and whatever their paths are. With a value it has consumed them all and nothing else. With a
cause it has stopped at one of them, at the latest at the last. The relation composes, so the result
of a reader is put together from the results of its parts.
-/

set_option autoImplicit false

namespace ConfigScript

namespace Reader

variable {ε α β σ π : Type} {reader : Reader ε α} {following : α → Reader ε β}
  {events more : List Event} {event close : Event} {value : α} {cause : Cause}

/-- A reader that fails when it has met some events, while others follow them. -/
def RejectsAt (reader : Reader ε α) (used left : List Event) (cause : Cause) : Prop :=
  ∀ pulled more : List (Event × Path), pulled.map (·.1) = used → more.map (·.1) = left →
    ∀ rest consumed, ∃ last,
      reader ⟨pulled.map .ok ++ (more.map .ok ++ rest), none, consumed⟩ =
        (.error (.cause cause), last) ∧
      last.pending = more.map .ok ++ rest ∧ last.path = consumed.following pulled

/-- A reader that fails at one of some events, by what it has met so far. -/
def Rejects (reader : Reader ε α) (events : List Event) (cause : Cause) : Prop :=
  ∃ used left, events = used ++ left ∧ RejectsAt reader used left cause

def Takes (reader : Reader ε α) (events : List Event) : Except Cause α → Prop
  | .ok value => ∀ pulled : List (Event × Path), pulled.map (·.1) = events → ∀ rest consumed,
      reader ⟨pulled.map .ok ++ rest, none, consumed⟩ =
        (.ok value, ⟨rest, none, consumed.following pulled⟩)
  | .error cause => Rejects reader events cause

/-- A reader that takes some events and has then looked at the event that ends them. -/
def TakesUpTo (close : Event) (reader : Reader ε α) (events : List Event) : Except Cause α → Prop
  | .ok value => ∀ pulled : List (Event × Path), pulled.map (·.1) = events → ∀ place rest consumed,
      reader ⟨pulled.map .ok ++ .ok (close, place) :: rest, none, consumed⟩ =
        (.ok value, ⟨rest, some (close, place), consumed.following pulled⟩)
  | .error cause => Rejects reader (events ++ [close]) cause

namespace RejectsAt

variable {used left : List Event}

theorem bind (rejects : RejectsAt reader used left cause) (following : α → Reader ε β) :
    RejectsAt (reader >>= following) used left cause := by
  intro pulled more shape shapeMore rest consumed
  obtain ⟨last, read, pending, place⟩ := rejects pulled more shape shapeMore rest consumed
  exact ⟨last, bind_of_error read, pending, place⟩

/-- Events behind those that are enough for a cause make no difference. -/
theorem append (rejects : RejectsAt reader used left cause) (second : List Event) :
    RejectsAt reader used (left ++ second) cause := by
  intro pulled more shape shapeMore rest consumed
  obtain ⟨front, back, rfl, shapeFront, -⟩ := List.map_eq_append_iff.1 shapeMore
  obtain ⟨last, read, pending, place⟩ :=
    rejects pulled front shape shapeFront (back.map .ok ++ rest) consumed
  exact ⟨last, by simpa using read, by simpa using pending, place⟩

theorem after (front : Takes reader events (.ok value))
    (rejects : RejectsAt (following value) used left cause) :
    RejectsAt (reader >>= following) (events ++ used) left cause := by
  intro pulled more shape shapeMore rest consumed
  obtain ⟨first, second, rfl, shapeFirst, shapeSecond⟩ := List.map_eq_append_iff.1 shape
  obtain ⟨last, read, pending, place⟩ :=
    rejects second more shapeSecond shapeMore rest (consumed.following first)
  refine ⟨last, ?_, pending, by rw [place, Path.following_append]⟩
  rw [List.map_append, List.append_assoc, bind_of_ok (front first shapeFirst _ _), read]

end RejectsAt

namespace Rejects

theorem bind (rejects : Rejects reader events cause) (following : α → Reader ε β) :
    Rejects (reader >>= following) events cause := by
  obtain ⟨used, left, split, fails⟩ := rejects
  exact ⟨used, left, split, fails.bind following⟩

theorem append (rejects : Rejects reader events cause) (second : List Event) :
    Rejects reader (events ++ second) cause := by
  obtain ⟨used, left, rfl, fails⟩ := rejects
  exact ⟨used, left ++ second, List.append_assoc _ _ _, fails.append second⟩

theorem after (front : Takes reader events (.ok value))
    (rejects : Rejects (following value) more cause) :
    Rejects (reader >>= following) (events ++ more) cause := by
  obtain ⟨used, left, rfl, fails⟩ := rejects
  exact ⟨events ++ used, left, (List.append_assoc _ _ _).symm, fails.after front⟩

theorem of_fail (cause : Cause) (events : List Event) :
    Rejects (fail cause : Reader ε α) events cause := by
  refine ⟨[], events, rfl, fun pulled more shape _ rest consumed => ?_⟩
  obtain rfl := List.map_eq_nil_iff.1 shape
  exact ⟨_, rfl, rfl, rfl⟩

end Rejects

theorem exists_eq_append_of_map_eq {pulled : List (Event × Path)}
    (shape : pulled.map (·.1) = events ++ [close]) :
    ∃ before place, pulled = before ++ [(close, place)] ∧ before.map (·.1) = events := by
  obtain ⟨before, after, rfl, beforeShape, afterShape⟩ := List.map_eq_append_iff.1 shape
  obtain ⟨⟨last, place⟩, rfl, same⟩ := List.map_eq_singleton_iff.1 afterShape
  cases same
  exact ⟨before, place, rfl, beforeShape⟩

namespace Takes

variable {first : Except Cause α} {result : Except Cause α}

theorem bind (front : Takes reader events first) (second : α → Except Cause β)
    (back : ∀ value, first = .ok value → Takes (following value) more (second value)) :
    Takes (reader >>= following) (events ++ more) (first >>= second) := by
  cases first with
  | error cause => exact (Rejects.bind front following).append more
  | ok value =>
      have back := back value rfl
      change Takes (reader >>= following) (events ++ more) (second value)
      cases known : second value with
      | error cause =>
          rw [known] at back
          exact Rejects.after front back
      | ok result =>
          intro pulled shape rest consumed
          rw [known] at back
          obtain ⟨before, after, rfl, beforeShape, afterShape⟩ := List.map_eq_append_iff.1 shape
          rw [List.map_append, List.append_assoc, bind_of_ok (front before beforeShape _ _),
            back after afterShape, Path.following_append]

theorem bind_ok {value : α} {result : Except Cause β} (front : Takes reader events (.ok value))
    (back : Takes (following value) more result) :
    Takes (reader >>= following) (events ++ more) result :=
  front.bind (fun _ => result) fun
    | _, rfl => back

theorem of_eq (takes : Takes reader events first) (same : first = result) :
    Takes reader events result :=
  same ▸ takes

theorem of_pure (value : α) : Takes (Pure.pure value : Reader ε α) [] (.ok value) := by
  intro pulled shape rest consumed
  obtain rfl := List.map_eq_nil_iff.1 shape
  rfl

theorem of_fail (cause : Cause) (events : List Event) :
    Takes (fail cause : Reader ε α) events (.error cause) :=
  Rejects.of_fail cause events

theorem of_except (known : Except Cause α) : Takes (ofExcept known : Reader ε α) [] known := by
  cases known with
  | ok value => exact of_pure value
  | error cause => exact of_fail cause []

theorem map (takes : Takes reader events first) (f : α → β) :
    Takes (do return f (← reader)) events (first.map f) := by
  have whole := takes.bind (fun value => .ok (f value)) fun value _ => of_pure (f value)
  rw [List.append_nil] at whole
  cases first <;> exact whole

theorem bind_except (takes : Takes reader events first) (known : α → Except Cause β) :
    Takes (do ofExcept (known (← reader))) events (first >>= known) := by
  have whole := takes.bind known fun value _ => of_except (known value)
  rwa [List.append_nil] at whole

theorem of_next (event : Event) : Takes (next : Reader ε Event) [event] (.ok event) := by
  intro pulled shape rest consumed
  obtain ⟨⟨_, place⟩, rfl, rfl⟩ := List.map_eq_singleton_iff.1 shape
  rfl

theorem next_bind {following : Event → Reader ε α} (back : Takes (following event) more result) :
    Takes (next >>= following) (event :: more) result :=
  (of_next event).bind_ok back

/-- Looking at an event makes no difference to a reader that begins by looking at one. -/
theorem peek_bind {following : Event → Reader ε α} (looks : Looks (following event))
    (takes : Takes (following event) (event :: more) result) :
    Takes (peek >>= following) (event :: more) result := by
  have same : ∀ pulled : List (Event × Path), pulled.map (·.1) = event :: more →
      ∀ rest consumed, (peek >>= following) ⟨pulled.map .ok ++ rest, none, consumed⟩ =
        following event ⟨pulled.map .ok ++ rest, none, consumed⟩ := by
    intro pulled shape rest consumed
    obtain ⟨⟨_, place⟩, others, rfl, rfl, -⟩ := List.map_eq_cons_iff.1 shape
    rw [← looks]
    rfl
  cases result with
  | ok value =>
      intro pulled shape rest consumed
      rw [same pulled shape, takes pulled shape]
  | error cause =>
      obtain ⟨used, left, split, fails⟩ := takes
      refine ⟨used, left, split, fun pulled others shape shapeOthers rest consumed => ?_⟩
      have whole : (pulled ++ others).map (·.1) = event :: more := by
        rw [List.map_append, shape, shapeOthers, split]
      rw [← List.append_assoc, ← List.map_append, same _ whole, List.map_append, List.append_assoc]
      exact fails pulled others shape shapeOthers rest consumed

theorem expect (close : Event) : Takes (expect close : Reader ε Unit) [close] (.ok ()) := by
  refine next_bind ?_
  rw [if_pos rfl]
  exact of_pure ()

theorem expect_other (other : event ≠ close) (more : List Event) :
    Takes (Reader.expect close : Reader ε Unit) (event :: more)
      (.error (.mismatch close.describe event)) := by
  refine next_bind ?_
  rw [if_neg other]
  exact of_fail _ more

/-- A loop goes on from the state that its step gives. -/
theorem iterate_some {step : σ → Reader ε (Option σ)}
    (advances : ∀ state, Advances (· ≠ none) (step state)) {state following : σ}
    {result : Except Cause σ} (goes : Takes (step state) events (.ok (some following)))
    (takes : Takes (iterate step following) more result) :
    Takes (iterate step state) (events ++ more) result := by
  rw [iterate_eq advances]
  exact goes.bind_ok takes

theorem iterate_none {step : σ → Reader ε (Option σ)}
    (advances : ∀ state, Advances (· ≠ none) (step state)) {state : σ}
    (stops : Takes (step state) events (.ok none)) :
    Takes (iterate step state) events (.ok state) := by
  rw [iterate_eq advances, ← List.append_nil events]
  exact stops.bind_ok (of_pure state)

end Takes

/-- Results that are gathered newest first and then turned around are in order. -/
theorem map_reverse_foldlM (round : π → Except Cause α) (parts : List π) (found : List α) :
    (parts.foldlM (fun found each => (round each).map (· :: found)) found).map List.reverse =
      (parts.mapM round).map (found.reverse ++ ·) := by
  induction parts generalizing found with
  | nil => simp [Except.map, Pure.pure, Except.pure]
  | cons each rest ih =>
      rw [List.foldlM_cons, List.mapM_cons]
      cases result : round each with
      | error cause => rfl
      | ok value =>
          refine (ih (value :: found)).trans ?_
          cases values : rest.mapM round with
          | error cause => rfl
          | ok values => exact congrArg Except.ok (by simp)

namespace TakesUpTo

variable {first : Except Cause α} {result : Except Cause α}

theorem of_eq (takes : TakesUpTo close reader events first) (same : first = result) :
    TakesUpTo close reader events result :=
  same ▸ takes

/-- Events that are taken before others that are taken up to the end. -/
theorem after (front : Takes reader events first) (second : α → Except Cause β)
    (back : ∀ value, first = .ok value → TakesUpTo close (following value) more (second value)) :
    TakesUpTo close (reader >>= following) (events ++ more) (first >>= second) := by
  cases first with
  | error cause =>
      change Rejects _ (events ++ more ++ [close]) cause
      rw [List.append_assoc]
      exact (Rejects.bind front following).append _
  | ok value =>
      have back := back value rfl
      change TakesUpTo close (reader >>= following) (events ++ more) (second value)
      cases known : second value with
      | error cause =>
          rw [known] at back
          change Rejects _ (events ++ more ++ [close]) cause
          rw [List.append_assoc]
          exact Rejects.after front back
      | ok result =>
          intro pulled shape place rest consumed
          rw [known] at back
          obtain ⟨before, after, rfl, beforeShape, afterShape⟩ := List.map_eq_append_iff.1 shape
          rw [List.map_append, List.append_assoc, bind_of_ok (front before beforeShape _ _),
            back after afterShape, Path.following_append]

/-- A cause that is found while the end is looked at. -/
theorem rejectsAt {value : α} (takes : TakesUpTo close reader events (.ok value))
    (known : ∀ decoder, following value decoder = (.error (.cause cause), decoder)) :
    RejectsAt (reader >>= following) (events ++ [close]) [] cause := by
  intro pulled more shape shapeMore rest consumed
  obtain rfl := List.map_eq_nil_iff.1 shapeMore
  obtain ⟨before, place, rfl, beforeShape⟩ := exists_eq_append_of_map_eq shape
  have read := takes before beforeShape place rest consumed
  refine ⟨⟨rest, some (close, place), consumed.following before⟩, ?_, rfl, ?_⟩
  · rw [List.map_append, List.append_assoc]
    exact (bind_of_ok read).trans (known _)
  · rw [Path.following_append]
    rfl

/-- What is known without another event is known while the end is looked at. -/
theorem bind (takes : TakesUpTo close reader events first) (second : α → Except Cause β)
    (known : ∀ value, first = .ok value → ∀ decoder,
      following value decoder = ((second value).mapError .cause, decoder)) :
    TakesUpTo close (reader >>= following) events (first >>= second) := by
  cases first with
  | error cause => exact Rejects.bind takes following
  | ok value =>
      have known := known value rfl
      change TakesUpTo close (reader >>= following) events (second value)
      cases result : second value with
      | ok result =>
          intro pulled shape place rest consumed
          rw [bind_of_ok (takes pulled shape place rest consumed), known, result]
          rfl
      | error cause =>
          rw [result] at known
          exact ⟨events ++ [close], [], (List.append_nil _).symm, takes.rejectsAt known⟩

theorem bind_ok {value : α} {result : Except Cause β}
    (takes : TakesUpTo close reader events (.ok value))
    (known : ∀ decoder, following value decoder = (result.mapError .cause, decoder)) :
    TakesUpTo close (reader >>= following) events result :=
  takes.bind (fun _ => result) fun
    | _, rfl => known

theorem map (takes : TakesUpTo close reader events first) (f : α → β) :
    TakesUpTo close (do return f (← reader)) events (first.map f) := by
  have whole : TakesUpTo close (do return f (← reader)) events
      (first >>= fun value => .ok (f value)) := takes.bind _ fun _ _ _ => rfl
  cases first <;> exact whole

/-- The end is consumed by what expects it. -/
theorem expect (takes : TakesUpTo close reader events first) :
    Takes (do
      let value ← reader
      expect close
      return value) (events ++ [close]) first := by
  cases first with
  | error cause => exact Rejects.bind takes _
  | ok value =>
      intro pulled shape rest consumed
      obtain ⟨before, place, rfl, beforeShape⟩ := exists_eq_append_of_map_eq shape
      have ended : Reader.expect close ⟨rest, some (close, place), consumed.following before⟩ =
          (.ok (), (⟨rest, none, place⟩ : Decoder ε)) := by
        have seen : next ⟨rest, some (close, place), consumed.following before⟩ =
            (.ok close, (⟨rest, none, place⟩ : Decoder ε)) := rfl
        unfold Reader.expect
        rw [bind_of_ok seen, if_pos rfl]
        rfl
      rw [List.map_append, List.append_assoc, List.map_singleton, List.singleton_append,
        bind_of_ok (takes before beforeShape place rest consumed), bind_of_ok ended,
        Path.following_append]
      rfl

theorem expect_map (takes : TakesUpTo close reader events first) (f : α → β) :
    Takes (do
      let value ← reader
      Reader.expect close
      return f value) (events ++ [close]) (first.map f) := by
  simpa only [bind_assoc, pure_bind] using (takes.map f).expect

/-- A loop goes through parts, one in each round, up to the event at which its step stops. -/
theorem iterate {step : σ → Reader ε (Option σ)}
    (advances : ∀ state, Advances (· ≠ none) (step state)) {part : π → List Event}
    {round : σ → π → Except Cause σ}
    {parts : List π}
    (steps : ∀ each ∈ parts, ∀ state, Takes (step state) (part each) ((round state each).map some))
    (stops : ∀ state, TakesUpTo close (step state) [] (.ok none)) (state : σ) :
    TakesUpTo close (iterate step state) (parts.flatMap part) (parts.foldlM round state) := by
  induction parts generalizing state with
  | nil =>
      rw [iterate_eq advances]
      exact (stops state).bind_ok fun _ => rfl
  | cons each rest ih =>
      obtain ⟨stepsFirst, stepsRest⟩ := List.forall_mem_cons.1 steps
      rw [iterate_eq advances, List.flatMap_cons, List.foldlM_cons]
      let onward : Option σ → Except Cause σ :=
        fun next => next.elim (.ok state) (rest.foldlM round)
      refine (after (stepsFirst state) onward fun next known => ?_).of_eq ?_
      · cases result : round state each with
        | error cause =>
            rw [result] at known
            cases known
        | ok following =>
            rw [result] at known
            cases known
            exact ih stepsRest following
      · cases round state each <;> rfl

theorem collect {next? : Reader ε (Option α)} (advances : Advances (· ≠ none) next?)
    (steady : Steady next?) {part : π → List Event} {round : π → Except Cause α} {parts : List π}
    (steps : ∀ each ∈ parts, Takes next? (part each) ((round each).map some))
    (stops : TakesUpTo close next? [] (.ok none)) :
    TakesUpTo close (collect next?) (parts.flatMap part) (parts.mapM round) := by
  have loop : TakesUpTo close
      (Reader.iterate (fun found => do return (← next?).map (· :: found)) [])
      (parts.flatMap part) (parts.foldlM (fun found each => (round each).map (· :: found)) []) := by
    refine iterate (advances.collect_step steady) (fun each member found => ?_)
      (fun found => stops.map (Option.map (· :: found))) []
    have taken := (steps each member).map (Option.map (· :: found))
    cases result : round each with
    | error cause => rwa [result] at taken
    | ok value => rwa [result] at taken
  have whole : TakesUpTo close (Reader.collect next?) _ _ := loop.map List.reverse
  rw [map_reverse_foldlM] at whole
  cases result : parts.mapM round with
  | error cause => rwa [result] at whole
  | ok values => rwa [result] at whole

end TakesUpTo

/-- A loop fails where one of its rounds does, after the rounds before it. -/
theorem RejectsAt.iterate {step : σ → Reader ε (Option σ)}
    (advances : ∀ state, Advances (· ≠ none) (step state)) {part : π → List Event}
    {round : σ → π → Except Cause σ} {before : List π}
    (steps : ∀ each ∈ before, ∀ state, Takes (step state) (part each) ((round state each).map some))
    {state reached : σ} (known : before.foldlM round state = .ok reached) {used left : List Event}
    (rejects : RejectsAt (step reached) used left cause) :
    RejectsAt (iterate step state) (before.flatMap part ++ used) left cause := by
  induction before generalizing state with
  | nil =>
      cases known
      rw [iterate_eq advances]
      exact rejects.bind _
  | cons each rest ih =>
      obtain ⟨stepsFirst, stepsRest⟩ := List.forall_mem_cons.1 steps
      rw [List.foldlM_cons] at known
      cases result : round state each with
      | error cause =>
          rw [result] at known
          cases known
      | ok following =>
          have taken := stepsFirst state
          rw [result] at known taken
          rw [iterate_eq advances, List.flatMap_cons, List.append_assoc]
          exact (ih stepsRest known).after taken

end Reader

end ConfigScript
