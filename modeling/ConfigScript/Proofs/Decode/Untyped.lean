import ConfigScript.Proofs.Decode.Container

/-!
# Values of any form

The reader of values of any form is given with a bound on their nesting. No value is nested deeper
than there are items, so the reader satisfies the equation of the recursion without the bound.
-/

set_option autoImplicit false

namespace ConfigScript.Reader

variable {ε α β σ : Type} {bound : Nat} {decoder : Decoder ε} {part other : Reader ε Untyped}

/-- Two readers that do the same wherever no more than some items remain. -/
def Agree (bound : Nat) (first second : Reader ε α) : Prop :=
  ∀ decoder : Decoder ε, decoder.remaining ≤ bound → first decoder = second decoder

namespace Agree

variable {first second : Reader ε α}

theorem refl (reader : Reader ε α) : Agree bound reader reader :=
  fun _ _ => rfl

theorem bind {firstNext secondNext : α → Reader ε β} (agree : Agree bound first second)
    (steady : Steady first) (back : ∀ value, Agree bound (firstNext value) (secondNext value)) :
    Agree bound (first >>= firstNext) (second >>= secondNext) := by
  intro decoder few
  have fewer := steady decoder
  have same := agree decoder few
  rcases read : first decoder with ⟨failure | value, middle⟩ <;> rw [read] at fewer same
  · rw [bind_of_error read, bind_of_error same.symm]
  · rw [bind_of_ok read, bind_of_ok same.symm]
    exact back value middle (Nat.le_trans fewer few)

theorem bind_same (agree : Agree bound first second) (following : α → Reader ε β) :
    Agree bound (first >>= following) (second >>= following) := by
  intro decoder few
  have same := agree decoder few
  rcases read : first decoder with ⟨failure | value, middle⟩ <;> rw [read] at same
  · rw [bind_of_error read, bind_of_error same.symm]
  · rw [bind_of_ok read, bind_of_ok same.symm]

theorem iterate {firstStep secondStep : σ → Reader ε (Option σ)}
    (agree : ∀ state, Agree bound (firstStep state) (secondStep state))
    (steady : ∀ state, Steady (firstStep state)) (state : σ) :
    Agree bound (iterate firstStep state) (iterate secondStep state) := by
  have within : ∀ rounds state, Agree bound (iterateWithin firstStep rounds state)
      (iterateWithin secondStep rounds state) := by
    intro rounds
    induction rounds with
    | zero => exact fun _ => refl _
    | succ rounds ih =>
        intro state
        rw [iterateWithin_succ, iterateWithin_succ]
        refine (agree state).bind (steady state) fun next => ?_
        cases next with
        | none => exact refl _
        | some following => exact ih following
  exact fun decoder few => within _ state decoder few

theorem collect {firstNext secondNext : Reader ε (Option α)}
    (agree : Agree bound firstNext secondNext) (steady : Steady firstNext) :
    Agree bound (collect firstNext) (collect secondNext) :=
  (iterate (fun _ => agree.bind_same _) (fun _ => steady.bind fun _ => .of_pure _) []).bind_same _

theorem elements (agree : Agree bound first second) (steady : Steady first) :
    Agree bound (elements first) (elements second) := by
  refine collect (bind (refl _) (IsLocal.steady fun _ => .of_peek) fun event => ?_)
    steady.nextElement
  split
  · exact refl _
  · exact agree.bind_same _

theorem entries {κ : Type} (key : String → Except Cause κ) (agree : Agree bound first second)
    (steady : Steady first) : Agree bound (entries key first) (entries key second) := by
  refine collect (bind (refl _) .nextKey fun name => ?_) (steady.nextEntry key)
  cases name with
  | none => exact refl _
  | some text => exact bind (refl _) (IsLocal.steady fun _ => .of_except _) fun _ =>
      agree.bind_same _

theorem untypedAfter (agree : Agree bound part other) (steady : Steady part) (event : Event) :
    Agree bound (untypedAfter part event) (untypedAfter other event) := by
  cases event with
  | primitive text | key text | objectClose | arrayClose => exact refl _
  | objectOpen => exact (agree.entries .ok steady).bind_same _
  | arrayOpen => exact (agree.elements steady).bind_same _
  | typeTag name => exact agree.bind_same _

end Agree

theorem Local.untypedAfter (advances : Advances (fun _ => True) part) (steady : Steady part)
    (each : Local bound part) (event : Event) : Local bound (untypedAfter part event) := by
  cases event with
  | primitive text => exact of_pure _
  | key text | objectClose | arrayClose => exact of_fail _
  | objectOpen =>
      exact (each.entries .ok steady).bind fun _ => (expect _).bind fun _ => of_pure _
  | arrayOpen =>
      exact (each.elements advances steady).bind fun _ => (expect _).bind fun _ => of_pure _
  | typeTag name => exact each.bind fun _ => of_pure _

/-- Whatever the bound on the nesting, a value of any form consumes an event and is local. -/
theorem untypedWithin_takes (depth : Nat) :
    Advances (fun _ => True) (untypedWithin depth : Reader ε Untyped) ∧
      IsLocal (untypedWithin depth : Reader ε Untyped) := by
  induction depth with
  | zero => exact ⟨.of_fail _, fun _ => .of_fail _⟩
  | succ depth ih =>
      obtain ⟨advances, isLocal⟩ := ih
      have after : ∀ event, IsLocal (untypedAfter (untypedWithin depth : Reader ε Untyped) event) :=
        fun event _ => .untypedAfter advances isLocal.steady (isLocal _) event
      exact ⟨Advances.of_next.bind (IsLocal.steady fun _ => .of_next) fun event =>
        (after event).steady, fun _ => Local.of_next.bind fun event => after event _⟩

/-- A deeper bound than the number of items that remain makes no difference. -/
theorem untypedWithin_eq_of_lt {depth more : Nat} (enough : decoder.remaining < depth)
    (enoughMore : decoder.remaining < more) :
    untypedWithin depth decoder = untypedWithin more decoder := by
  induction depth generalizing more decoder with
  | zero => cases enough
  | succ depth ih =>
      cases more with
      | zero => cases enoughMore
      | succ more =>
          rcases read : next decoder with ⟨failure | event, rest⟩
          · exact (bind_of_error read).trans (bind_of_error read).symm
          · have fewer := remaining_lt_of_next read
            have agree : Agree rest.remaining (untypedWithin depth : Reader ε Untyped)
                (untypedWithin more) := fun inner few => ih (by omega) (by omega)
            have same := agree.untypedAfter (untypedWithin_takes depth).2.steady event rest
              (Nat.le_refl _)
            exact (bind_of_ok read).trans (same.trans (bind_of_ok read).symm)

theorem Steady.untyped : Steady (untyped : Reader ε Untyped) :=
  fun decoder => (untypedWithin_takes (decoder.remaining + 1)).2.steady decoder

theorem Advances.untyped : Advances (fun _ => True) (untyped : Reader ε Untyped) :=
  fun decoder => (untypedWithin_takes (decoder.remaining + 1)).1 decoder

/-- A value of any form is an event and what follows it, where the parts are values of any form. -/
theorem untyped_eq : (untyped : Reader ε Untyped) = next >>= untypedAfter untyped := by
  funext decoder
  rcases read : next decoder with ⟨failure | event, rest⟩
  · exact (bind_of_error read).trans (bind_of_error read).symm
  · have fewer := remaining_lt_of_next read
    have agree : Agree rest.remaining (untypedWithin decoder.remaining : Reader ε Untyped)
        untyped := fun inner few => untypedWithin_eq_of_lt (by omega) (Nat.lt_succ_self _)
    have same := agree.untypedAfter (untypedWithin_takes _).2.steady event rest (Nat.le_refl _)
    exact (bind_of_ok read).trans (same.trans (bind_of_ok read).symm)

theorem IsLocal.untyped : IsLocal (untyped : Reader ε Untyped) := by
  intro bound
  induction bound using Nat.strongRecOn with
  | ind bound ih =>
      intro first few
      rw [untyped_eq]
      refine Runs.of_next.bind fun event last read => ?_
      have fewer := remaining_lt_of_next read
      exact Local.untypedAfter .untyped .untyped (ih last.remaining (by omega)) event last
        (Nat.le_refl _)

theorem Looks.untyped : Looks (untyped : Reader ε Untyped) :=
  .bounded fun _ => of_next.bind _

end ConfigScript.Reader
