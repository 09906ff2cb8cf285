import ConfigScript.Proofs.Decode.Reader

/-!
# A reader knows only what it has pulled

What a reader does depends on the items that it pulls and on nothing behind them. Either it has come
to a result after some events, whatever follows them, or it wants one more: then it stops at the end
of the stream or hands on the error that follows. Both kinds of run compose, so every reader that is
put together from looking at events and consuming them is of this kind.
-/

set_option autoImplicit false

namespace ConfigScript

namespace Decoder

variable {ε : Type} {first middle last : Decoder ε} {pulled more : List (Event × Path)}

/-- The decoder with other items behind the event that it has pulled. -/
def facing (decoder : Decoder ε) (items : List (Item ε)) : Decoder ε :=
  { decoder with pending := items }

@[simp] theorem facing_pending (decoder : Decoder ε) : decoder.facing decoder.pending = decoder :=
  rfl

@[simp] theorem pending_facing (decoder : Decoder ε) (items : List (Item ε)) :
    (decoder.facing items).pending = items := rfl

/-- How many events have been pulled and not consumed. -/
def held (decoder : Decoder ε) : Nat :=
  if decoder.peeked.isSome then 1 else 0

theorem remaining_eq (decoder : Decoder ε) :
    decoder.remaining = decoder.pending.length + decoder.held := rfl

/-- What pulling some events leads to: the path is that of the last of them, and no more events are
held than were pulled. -/
structure Follows (first : Decoder ε) (pulled : List (Event × Path)) (last : Decoder ε) : Prop where
  path : last.path = pulled.foldl (fun _ event => event.2) first.path
  held : last.held ≤ pulled.length + first.held

namespace Follows

theorem refl (decoder : Decoder ε) : decoder.Follows [] decoder :=
  ⟨rfl, by simp⟩

theorem trans (front : first.Follows pulled middle) (back : middle.Follows more last) :
    first.Follows (pulled ++ more) last where
  path := by rw [back.path, front.path, List.foldl_append]
  held := by
    have := front.held
    have := back.held
    rw [List.length_append]
    omega

end Follows

end Decoder

/-- What one run of a reader shows of it. -/
inductive Reader.Runs {ε α : Type} (reader : Reader ε α) (first : Decoder ε) : Prop where
  /-- The result is known after some events. -/
  | settled (pulled : List (Event × Path)) (result : Except Cause α) (last : Decoder ε) :
      first.Follows pulled last → first.pending = pulled.map .ok ++ last.pending →
      (∀ rest, reader (first.facing (pulled.map .ok ++ rest)) =
        (result.mapError .cause, last.facing rest)) →
      Runs reader first
  /-- One more event is wanted after some events, and there is none. -/
  | stopped (pulled : List (Event × Path)) (last : Decoder ε) (rest : List (Item ε)) :
      first.Follows pulled last → first.pending = pulled.map .ok ++ rest →
      (rest = [] ∨ ∃ error later, rest = .error error :: later) →
      reader (first.facing (pulled.map .ok)) = (.error (.cause .endOfInput), last.facing []) →
      (∀ error later, reader (first.facing (pulled.map .ok ++ .error error :: later)) =
        (.error (.stream error), last.facing later)) →
      Runs reader first

namespace Reader

variable {ε α β κ σ : Type} {first last : Decoder ε} {reader : Reader ε α}
  {following : α → Reader ε β} {bound : Nat}

namespace Runs

theorem eq_facing {pulled : List (Event × Path)} {rest : List (Item ε)}
    (shape : first.pending = pulled.map .ok ++ rest) :
    first.facing (pulled.map .ok ++ rest) = first := by
  rw [← shape, Decoder.facing_pending]

/-- A run pulls some events, and then perhaps an error. -/
theorem exists_pulled (runs : Runs reader first) :
    ∃ pulled rest, first.pending = pulled.map .ok ++ rest ∧
      first.Follows pulled (reader first).2 ∧
      ((reader first).2.pending = rest ∨ ∃ error, rest = .error error :: (reader first).2.pending) := by
  cases runs with
  | settled pulled result last follows shape same =>
      have run := same last.pending
      rw [eq_facing shape] at run
      exact ⟨pulled, last.pending, shape, run ▸ follows, .inl (run ▸ rfl)⟩
  | stopped pulled last rest follows shape ends bare met =>
      have facing : ∀ items, first.Follows pulled (last.facing items) :=
        fun _ => ⟨follows.path, follows.held⟩
      rcases ends with rfl | ⟨error, later, rfl⟩
      · rw [← List.append_nil (pulled.map Except.ok), eq_facing shape] at bare
        exact ⟨pulled, [], shape, bare ▸ facing [], .inl (bare ▸ rfl)⟩
      · have run := met error later
        rw [eq_facing shape] at run
        exact ⟨pulled, .error error :: later, shape, run ▸ facing later,
          .inr ⟨error, run ▸ rfl⟩⟩

theorem pending_length_le (runs : Runs reader first) :
    (reader first).2.pending.length ≤ first.pending.length := by
  obtain ⟨pulled, rest, shape, _, same | ⟨error, same⟩⟩ := runs.exists_pulled
  · simp [shape, same]
  · simp [shape, same]
    omega

theorem remaining_le (runs : Runs reader first) :
    (reader first).2.remaining ≤ first.remaining := by
  obtain ⟨pulled, rest, shape, follows, same | ⟨error, same⟩⟩ := runs.exists_pulled
  all_goals
    have := follows.held
    simp only [Decoder.remaining_eq, shape, same, List.length_append, List.length_map,
      List.length_cons]
    omega

theorem bind (front : Runs reader first)
    (back : ∀ value last, reader first = (.ok value, last) → Runs (following value) last) :
    Runs (reader >>= following) first := by
  cases front with
  | stopped pulled last rest follows shape ends bare met =>
      exact .stopped pulled last rest follows shape ends (bind_of_error bare)
        fun error later => bind_of_error (met error later)
  | settled pulled result last follows shape same =>
      cases result with
      | error cause =>
          exact .settled pulled (.error cause) last follows shape
            fun rest => bind_of_error (same rest)
      | ok value =>
          have run := same last.pending
          rw [eq_facing shape] at run
          cases back value last run with
          | settled more result final followsMore shapeMore sameMore =>
              refine .settled (pulled ++ more) result final (follows.trans followsMore)
                (by simp [shape, shapeMore]) fun rest => ?_
              rw [List.map_append, List.append_assoc, bind_of_ok (same _), sameMore]
          | stopped more final rest followsMore shapeMore ends bare met =>
              refine .stopped (pulled ++ more) final rest (follows.trans followsMore)
                (by simp [shape, shapeMore]) ends ?_ fun error later => ?_
              · rw [List.map_append, bind_of_ok (same _), bare]
              · rw [List.map_append, List.append_assoc, bind_of_ok (same _), met]

theorem of_pure (value : α) : Runs (Pure.pure value : Reader ε α) first :=
  .settled [] (.ok value) first (.refl first) rfl fun _ => rfl

theorem of_fail (cause : Cause) : Runs (fail cause : Reader ε α) first :=
  .settled [] (.error cause) first (.refl first) rfl fun _ => rfl

theorem of_peek : Runs (peek : Reader ε Event) first := by
  rcases first with ⟨pending, _ | ⟨event, path⟩, consumed⟩
  · rcases pending with _ | ⟨error | ⟨event, path⟩, rest⟩
    · exact .stopped [] _ [] (.refl _) rfl (.inl rfl) rfl fun _ _ => rfl
    · exact .stopped [] _ _ (.refl _) rfl (.inr ⟨error, rest, rfl⟩) rfl fun _ _ => rfl
    · exact .settled [(event, path)] (.ok event) ⟨rest, some (event, path), consumed⟩
        ⟨rfl, by simp [Decoder.held]⟩ rfl fun _ => rfl
  · exact .settled [] (.ok event) _ (.refl _) rfl fun _ => rfl

theorem of_consume : Runs (consume : Reader ε Unit) first := by
  rcases first with ⟨pending, _ | ⟨event, path⟩, consumed⟩
  · exact .settled [] (.ok ()) _ (.refl _) rfl fun _ => rfl
  · exact .settled [] (.ok ()) ⟨pending, none, path⟩ ⟨rfl, by simp [Decoder.held]⟩ rfl fun _ => rfl

theorem of_next : Runs (next : Reader ε Event) first :=
  of_peek.bind fun _ _ _ => of_consume.bind fun _ _ _ => of_pure _

end Runs

/-- A reader whose runs are local wherever no more than some items remain. -/
def Local (bound : Nat) (reader : Reader ε α) : Prop :=
  ∀ first : Decoder ε, first.remaining ≤ bound → Runs reader first

namespace Local

theorem bind (front : Local bound reader) (back : ∀ value, Local bound (following value)) :
    Local bound (reader >>= following) := by
  intro first few
  have runs := front first few
  refine runs.bind fun value last read => back value last ?_
  have := runs.remaining_le
  rw [read] at this
  exact Nat.le_trans this few

theorem of_pure (value : α) : Local bound (Pure.pure value : Reader ε α) :=
  fun _ _ => .of_pure value

theorem of_fail (cause : Cause) : Local bound (fail cause : Reader ε α) :=
  fun _ _ => .of_fail cause

theorem of_except (known : Except Cause α) : Local bound (ofExcept known : Reader ε α) := by
  cases known with
  | ok value => exact of_pure value
  | error cause => exact of_fail cause

theorem of_peek : Local bound (peek : Reader ε Event) :=
  fun _ _ => .of_peek

theorem of_consume : Local bound (consume : Reader ε Unit) :=
  fun _ _ => .of_consume

theorem of_next : Local bound (next : Reader ε Event) :=
  fun _ _ => .of_next

theorem expect (expected : Event) : Local bound (expect expected : Reader ε Unit) :=
  of_next.bind fun event => by
    split
    · exact of_pure ()
    · exact of_fail _

/-- A loop whose steps consume an event each is local when its steps are. -/
theorem iterate {step : σ → Reader ε (Option σ)}
    (advances : ∀ state, Advances (· ≠ none) (step state))
    (steps : ∀ state, Local bound (step state)) (state : σ) : Local bound (iterate step state) := by
  intro first few
  induction remains : first.remaining using Nat.strongRecOn generalizing first state with
  | ind remaining ih =>
      subst remains
      rw [iterate_eq advances]
      refine (steps state first few).bind fun next last read => ?_
      cases next with
      | none => exact .of_pure state
      | some next =>
          have fewer := advances state first _ last read (Option.some_ne_none next)
          exact ih last.remaining fewer next last (by omega) rfl

end Local

end Reader

end ConfigScript
