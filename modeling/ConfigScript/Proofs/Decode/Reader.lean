import ConfigScript.Decode.Container

/-!
# Laws of readers

Readers are a lawful monad, so a reader can be taken apart where it was put together. A loop whose
steps consume an event each satisfies the equation of a loop without any bound on its rounds.
-/

set_option autoImplicit false

namespace ConfigScript.Reader

variable {ε α β σ : Type} {decoder last : Decoder ε} {value : α} {failure : Failure ε}
  {first : Reader ε α} {following : α → Reader ε β}

theorem bind_of_ok (read : first decoder = (.ok value, last)) :
    (first >>= following) decoder = following value last := by
  change Reader.bind first following decoder = _
  simp [Reader.bind, read]

theorem bind_of_error (read : first decoder = (.error failure, last)) :
    (first >>= following) decoder = (.error failure, last) := by
  change Reader.bind first following decoder = _
  simp [Reader.bind, read]

theorem exists_of_bind_ok {result : β}
    (read : (first >>= following) decoder = (.ok result, last)) :
    ∃ value middle, first decoder = (.ok value, middle) ∧
      following value middle = (.ok result, last) := by
  rcases front : first decoder with ⟨failure | value, middle⟩
  · rw [bind_of_error front] at read
    cases read
  · rw [bind_of_ok front] at read
    exact ⟨value, middle, rfl, read⟩

instance : LawfulMonad (Reader ε) :=
  .mk' _
    (fun reader => by
      funext decoder
      change Reader.bind reader Reader.pure decoder = reader decoder
      rcases read : reader decoder with ⟨failure | value, last⟩ <;>
        simp [Reader.bind, read, Reader.pure])
    (fun _ _ => rfl)
    (fun reader next after => by
      funext decoder
      change Reader.bind (Reader.bind reader next) after decoder =
        Reader.bind reader (fun value => Reader.bind (next value) after) decoder
      rcases read : reader decoder with ⟨failure | value, last⟩ <;> simp [Reader.bind, read])

/-- A reader that has consumed an event whenever it gives one of certain results. -/
def Advances (results : α → Prop) (reader : Reader ε α) : Prop :=
  ∀ decoder value last, reader decoder = (.ok value, last) → results value →
    last.remaining < decoder.remaining

theorem iterateWithin_succ (step : σ → Reader ε (Option σ)) (rounds : Nat) (state : σ) :
    iterateWithin step (rounds + 1) state = do
      match ← step state with
      | some following => iterateWithin step rounds following
      | none => return state := by
  funext decoder
  simp only [iterateWithin]
  rcases stepped : step state decoder with ⟨failure | _ | following, rest⟩
  · rw [bind_of_error stepped]
  · rw [bind_of_ok stepped]
    rfl
  · rw [bind_of_ok stepped]

/-- Rounds beyond the number of items that remain make no difference. -/
theorem iterateWithin_eq_of_lt {step : σ → Reader ε (Option σ)}
    (advances : ∀ state, Advances (· ≠ none) (step state)) {rounds more : Nat} {state : σ}
    (enough : decoder.remaining < rounds) (enoughMore : decoder.remaining < more) :
    iterateWithin step rounds state decoder = iterateWithin step more state decoder := by
  induction rounds generalizing more state decoder with
  | zero => cases enough
  | succ rounds ih =>
      cases more with
      | zero => cases enoughMore
      | succ more =>
          simp only [iterateWithin]
          rcases stepped : step state decoder with ⟨failure | _ | following, rest⟩
          · rfl
          · rfl
          · have fewer := advances state decoder _ rest stepped (Option.some_ne_none following)
            exact ih (by omega) (by omega)

/-- A loop takes a step and goes on from the state that it gives. -/
theorem iterate_eq {step : σ → Reader ε (Option σ)}
    (advances : ∀ state, Advances (· ≠ none) (step state)) (state : σ) :
    iterate step state = do
      match ← step state with
      | some following => iterate step following
      | none => return state := by
  funext decoder
  change iterateWithin step (decoder.remaining + 1) state decoder = _
  rw [iterateWithin_succ]
  rcases stepped : step state decoder with ⟨failure | _ | following, rest⟩
  · rw [bind_of_error stepped, bind_of_error stepped]
  · rw [bind_of_ok stepped, bind_of_ok stepped]
  · rw [bind_of_ok stepped, bind_of_ok stepped]
    have fewer := advances state decoder _ rest stepped (Option.some_ne_none following)
    exact iterateWithin_eq_of_lt advances fewer (Nat.lt_succ_self _)

/-- A reader that looks at an event before anything else: looking at it beforehand makes no
difference. -/
def Looks (reader : Reader ε α) : Prop :=
  (do let _ ← peek; reader) = reader

namespace Looks

theorem bind (looks : Looks first) (following : α → Reader ε β) : Looks (first >>= following) := by
  unfold Looks
  rw [← bind_assoc, looks]

theorem of_peek : Looks (peek : Reader ε Event) := by
  funext decoder
  rcases decoder with ⟨pending, _ | ⟨event, path⟩, consumed⟩
  · rcases pending with _ | ⟨_ | ⟨event, path⟩, rest⟩ <;> rfl
  · rfl

theorem of_next : Looks (next : Reader ε Event) :=
  of_peek.bind _

theorem bounded {reader : Nat → Reader ε α} (looks : ∀ rounds, Looks (reader (rounds + 1))) :
    Looks (bounded reader) := by
  funext decoder
  have same := congrFun (looks decoder.remaining) decoder
  rcases decoder with ⟨pending, _ | ⟨event, path⟩, consumed⟩
  · rcases pending with _ | ⟨_ | ⟨event, path⟩, rest⟩
    · exact same
    · exact same
    · exact same
  · rfl

theorem iterate {step : σ → Reader ε (Option σ)} (looks : ∀ state, Looks (step state))
    (state : σ) : Looks (iterate step state) := by
  refine .bounded fun rounds => ?_
  rw [iterateWithin_succ]
  exact (looks state).bind _

end Looks

end ConfigScript.Reader
