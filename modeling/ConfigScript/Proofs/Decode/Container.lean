import ConfigScript.Proofs.Decode.Locality

/-!
# Readers of containers are local

A loop needs steps that consume an event each, so a reader of a container is local when the readers
of its parts are local and consume something. Readers of whole values have both properties, and they
look at an event before anything else.
-/

set_option autoImplicit false

namespace ConfigScript.Reader

variable {ε α β κ σ : Type} {bound : Nat} {reader element : Reader ε α} {value : Reader ε α}
  {following : α → Reader ε β} {known results : α → Prop} {accepted : β → Prop}

/-- A reader that is local whatever remains. -/
def IsLocal (reader : Reader ε α) : Prop :=
  ∀ bound, Local bound reader

/-- A reader that adds nothing to the items that remain. -/
def Steady (reader : Reader ε α) : Prop :=
  ∀ decoder, (reader decoder).2.remaining ≤ decoder.remaining

theorem IsLocal.steady (isLocal : IsLocal reader) : Steady reader :=
  fun decoder => (isLocal _ decoder (Nat.le_refl _)).remaining_le

namespace Steady

theorem of_pure (value : α) : Steady (Pure.pure value : Reader ε α) :=
  fun _ => Nat.le_refl _

theorem bind (front : Steady reader) (back : ∀ value, Steady (following value)) :
    Steady (reader >>= following) := by
  intro decoder
  have fewer := front decoder
  rcases read : reader decoder with ⟨failure | value, middle⟩ <;> rw [read] at fewer
  · rw [bind_of_error read]
    exact fewer
  · rw [bind_of_ok read]
    exact Nat.le_trans (back value middle) fewer

end Steady

theorem remaining_lt_of_consume {decoder middle last : Decoder ε} {event : Event}
    (looked : peek decoder = (.ok event, middle)) (taken : consume middle = (.ok (), last)) :
    last.remaining < decoder.remaining := by
  rcases decoder with ⟨pending, _ | ⟨seen, path⟩, consumed⟩
  · rcases pending with _ | ⟨_ | ⟨seen, path⟩, rest⟩ <;> cases looked
    cases taken
    simp [Decoder.remaining]
  · cases looked
    cases taken
    simp [Decoder.remaining]

theorem remaining_lt_of_next {decoder last : Decoder ε} {event : Event}
    (read : next decoder = (.ok event, last)) : last.remaining < decoder.remaining := by
  obtain ⟨seen, middle, looked, consumed⟩ := exists_of_bind_ok read
  obtain ⟨_, final, taken, same⟩ := exists_of_bind_ok consumed
  cases same
  exact remaining_lt_of_consume looked taken

namespace Advances

theorem of_fail (cause : Cause) : Advances results (fail cause : Reader ε α) := by
  intro decoder value last read
  cases read

theorem of_pure {value : α} (rejected : ¬ results value) :
    Advances results (Pure.pure value : Reader ε α) := by
  intro decoder other last read accepted
  cases read
  exact absurd accepted rejected

theorem of_next {results : Event → Prop} : Advances results (next : Reader ε Event) :=
  fun _ _ _ read _ => remaining_lt_of_next read

/-- An event is consumed by the first reader for the results that it is known to consume one for,
and by what follows for all others. -/
theorem bind_of_known (advances : Advances known reader) (steady : Steady reader)
    (consumed : ∀ value, known value → Steady (following value))
    (unknown : ∀ value, ¬ known value → Advances accepted (following value)) :
    Advances accepted (reader >>= following) := by
  intro decoder result last read accepts
  obtain ⟨value, middle, front, back⟩ := exists_of_bind_ok read
  by_cases isKnown : known value
  · have fewer := advances decoder value middle front isKnown
    have fewest := consumed value isKnown middle
    rw [back] at fewest
    exact Nat.lt_of_le_of_lt fewest fewer
  · have fewest := unknown value isKnown middle result last back accepts
    have fewer := steady decoder
    rw [front] at fewer
    exact Nat.lt_of_lt_of_le fewest fewer

theorem bind (advances : Advances (fun _ => True) reader) (steady : Steady reader)
    (back : ∀ value, Steady (following value)) : Advances accepted (reader >>= following) :=
  advances.bind_of_known steady (fun value _ => back value)
    (fun _ unknown => absurd trivial unknown)

theorem bind_right (steady : Steady reader)
    (back : ∀ value, Advances accepted (following value)) :
    Advances accepted (reader >>= following) :=
  bind_of_known (fun _ _ _ _ never => never.elim) steady (fun _ never => never.elim)
    (fun value (_ : ¬ False) => back value)

end Advances

private theorem not_ne_none : ¬ (none : Option σ) ≠ none :=
  fun none => none rfl

section Elements

theorem Local.nextElement (each : Local bound element) : Local bound (nextElement element) :=
  of_peek.bind fun event => by
    split
    · exact of_pure none
    · exact each.bind fun _ => of_pure _

theorem Steady.nextElement (each : Steady element) : Steady (nextElement element) :=
  bind (IsLocal.steady fun _ => .of_peek) fun event => by
    split
    · exact of_pure none
    · exact each.bind fun _ => of_pure _

theorem Advances.nextElement (advances : Advances (fun _ => True) element)
    (steady : Steady element) : Advances (· ≠ none) (nextElement element) :=
  bind_right (IsLocal.steady fun _ => .of_peek) fun event => by
    split
    · exact of_pure not_ne_none
    · exact advances.bind steady fun _ => .of_pure _

end Elements

section Entries

theorem Local.nextKey : Local bound (nextKey : Reader ε (Option String)) :=
  of_peek.bind fun event => by
    split
    · exact of_pure none
    · refine of_next.bind fun event => ?_
      split
      · exact of_pure _
      · exact of_fail _

theorem Steady.nextKey : Steady (nextKey : Reader ε (Option String)) :=
  IsLocal.steady fun _ => .nextKey

theorem Advances.nextKey : Advances (· ≠ none) (nextKey : Reader ε (Option String)) :=
  bind_right (IsLocal.steady fun _ => .of_peek) fun event => by
    split
    · exact of_pure not_ne_none
    · refine of_next.bind (IsLocal.steady fun _ => .of_next) fun event => ?_
      split
      · exact .of_pure _
      · exact IsLocal.steady fun _ => .of_fail _

/-- A step that begins with a key consumes an event unless there is none. -/
theorem Advances.of_nextKey {step : Option String → Reader ε (Option σ)}
    (ends : step none = Pure.pure none) (goes : ∀ name, Steady (step (some name))) :
    Advances (· ≠ none) (Reader.nextKey >>= step) :=
  nextKey.bind_of_known .nextKey
    (fun name isKey => by
      cases name with
      | none => exact absurd rfl isKey
      | some name => exact goes name)
    (fun name unknown => by
      cases name with
      | none => exact ends ▸ of_pure not_ne_none
      | some name => exact absurd (Option.some_ne_none name) unknown)

theorem Local.nextEntry (key : String → Except Cause κ) (each : Local bound value) :
    Local bound (nextEntry key value) :=
  nextKey.bind fun name => by
    cases name with
    | none => exact of_pure none
    | some text => exact (of_except _).bind fun _ => each.bind fun _ => of_pure _

private theorem Steady.entry (known : Except Cause κ) (each : Steady value) :
    Steady (do return some (← ofExcept known, ← value) : Reader ε (Option (κ × α))) :=
  bind (IsLocal.steady fun _ => .of_except _) fun _ => each.bind fun _ => of_pure _

theorem Steady.nextEntry (key : String → Except Cause κ) (each : Steady value) :
    Steady (nextEntry key value) :=
  Steady.nextKey.bind fun name => by
    cases name with
    | none => exact of_pure none
    | some text => exact entry _ each

theorem Advances.nextEntry (key : String → Except Cause κ) (each : Steady value) :
    Advances (· ≠ none) (nextEntry key value) := by
  apply of_nextKey
  · rfl
  · exact fun _ => .entry _ each

end Entries

section Collect

variable {next? : Reader ε (Option α)}

theorem Advances.collect_step (advances : Advances (· ≠ none) next?) (steady : Steady next?)
    (found : List α) :
    Advances (· ≠ none) (do return (← next?).map (· :: found) : Reader ε (Option (List α))) :=
  advances.bind_of_known steady (fun _ _ => .of_pure _) fun next unknown => by
    cases next with
    | none => exact of_pure not_ne_none
    | some value => exact absurd (Option.some_ne_none value) unknown

theorem Local.collect (advances : Advances (· ≠ none) next?) (steady : Steady next?)
    (each : Local bound next?) : Local bound (collect next?) :=
  (iterate (advances.collect_step steady) (fun _ => each.bind fun _ => of_pure _) []).bind
    fun _ => of_pure _

theorem Local.elements (advances : Advances (fun _ => True) element) (steady : Steady element)
    (each : Local bound element) : Local bound (elements element) :=
  collect (advances.nextElement steady) steady.nextElement each.nextElement

theorem Local.entries (key : String → Except Cause κ) (steady : Steady value)
    (each : Local bound value) : Local bound (entries key value) :=
  collect (.nextEntry key steady) (steady.nextEntry key) (each.nextEntry key)

end Collect

section Skip

theorem Local.skipEvent (depth : Nat) : Local bound (skipEvent depth : Reader ε (Option Nat)) :=
  of_next.bind fun _ => of_except _

theorem Advances.skipEvent {results : Option Nat → Prop} (depth : Nat) :
    Advances results (skipEvent depth : Reader ε (Option Nat)) :=
  of_next.bind (IsLocal.steady fun _ => .of_next) fun _ => IsLocal.steady fun _ => .of_except _

theorem Local.skip : Local bound (skip : Reader ε Unit) :=
  (iterate (fun _ => .skipEvent _) skipEvent 0).bind fun _ => of_pure ()

theorem Advances.skip : Advances (fun _ => True) (skip : Reader ε Unit) := by
  unfold Reader.skip
  rw [iterate_eq fun _ => .skipEvent _, bind_assoc]
  refine bind (skipEvent 0) (IsLocal.steady fun _ => .skipEvent 0) fun next => ?_
  refine IsLocal.steady fun _ => Local.bind ?_ fun _ => .of_pure ()
  cases next with
  | none => exact .of_pure _
  | some depth => exact .iterate (fun _ => .skipEvent _) .skipEvent depth

end Skip

end ConfigScript.Reader
