import ConfigScript.Decode.Cause
import ConfigScript.Proofs.Association

/-!
# Results that are alike

Two results are alike when both are values, and related ones, or both are reasons for which there is
no value. Going through the same list in another order gives results that are alike, although the
reasons may be others. A result is kept by another that is the same value whenever it is one.
-/

set_option autoImplicit false

namespace ConfigScript

variable {α β γ δ : Type} {related : α → β → Prop} {next : γ → δ → Prop}
  {first : Except Cause α} {second : Except Cause β}

theorem map_eq_ok_iff {result : Except Cause α} {function : α → β} {value : β} :
    result.map function = .ok value ↔ ∃ known, result = .ok known ∧ function known = value := by
  cases result with
  | ok known => simp [Except.map]
  | error cause => simp [Except.map]

/-- Going through a list gives a value for each source exactly when it fails nowhere. -/
theorem mapM_eq_ok_iff {read : α → Except Cause β} {sources : List α} {values : List β} :
    sources.mapM read = .ok values ↔
      List.Forall₂ (fun value source => read source = .ok value) values sources := by
  constructor
  · intro done
    induction sources generalizing values with
    | nil =>
        cases done
        exact .nil
    | cons source rest ih =>
        rw [List.mapM_cons] at done
        cases first : read source with
        | error cause =>
            rw [first] at done
            cases done
        | ok value =>
            cases others : rest.mapM read with
            | error cause =>
                rw [first, others] at done
                cases done
            | ok results =>
                rw [first, others] at done
                cases done
                exact .cons first (ih others)
  · intro reads
    induction reads with
    | nil => rfl
    | cons first _ ih =>
        rw [List.mapM_cons, first, ih]
        rfl

inductive SameOutcome (related : α → β → Prop) : Except Cause α → Except Cause β → Prop
  | value {value : α} {other : β} (holds : related value other) :
      SameOutcome related (.ok value) (.ok other)
  | cause (first second : Cause) : SameOutcome related (.error first) (.error second)

namespace SameOutcome

theorem of_refl {related : α → α → Prop} (reflexive : ∀ value, related value value)
    (result : Except Cause α) : SameOutcome related result result := by
  cases result with
  | ok value => exact .value (reflexive value)
  | error cause => exact .cause cause cause

theorem exists_ok_iff (same : SameOutcome related first second) :
    (∃ value, first = .ok value) ↔ ∃ value, second = .ok value := by
  cases same with
  | value holds => exact iff_of_true ⟨_, rfl⟩ ⟨_, rfl⟩
  | cause => exact iff_of_false nofun nofun

theorem bind (same : SameOutcome related first second) {front : α → Except Cause γ}
    {back : β → Except Cause δ}
    (holds : ∀ value other, first = .ok value → related value other →
      SameOutcome next (front value) (back other)) :
    SameOutcome next (first >>= front) (second >>= back) := by
  cases same with
  | value related => exact holds _ _ rfl related
  | cause => exact .cause _ _

theorem map (same : SameOutcome related first second) {front : α → γ} {back : β → δ}
    (holds : ∀ value other, first = .ok value → related value other →
      next (front value) (back other)) :
    SameOutcome next (first.map front) (second.map back) := by
  cases same with
  | value related => exact .value (holds _ _ rfl related)
  | cause => exact .cause _ _

theorem mono {further : α → β → Prop} (same : SameOutcome related first second)
    (implies : ∀ value other, related value other → further value other) :
    SameOutcome further first second := by
  cases same with
  | value holds => exact .value (implies _ _ holds)
  | cause => exact .cause _ _

theorem comp {third : Except Cause γ} {further : β → γ → Prop}
    (same : SameOutcome related first second) (sameNext : SameOutcome further second third) :
    SameOutcome (Relation.Comp related further) first third := by
  cases same with
  | value holds =>
      cases sameNext with
      | value holdsNext => exact .value ⟨_, holds, holdsNext⟩
  | cause =>
      cases sameNext with
      | cause => exact .cause _ _

/-- Lists that correspond value by value are gone through alike. -/
theorem mapM {front : α → Except Cause γ} {back : β → Except Cause δ} {values : List α}
    {others : List β}
    (each : List.Forall₂ (fun value other => SameOutcome next (front value) (back other))
      values others) :
    SameOutcome (List.Forall₂ next) (values.mapM front) (others.mapM back) := by
  induction each with
  | nil => exact .value .nil
  | cons first _ ih =>
      rw [List.mapM_cons, List.mapM_cons]
      exact first.bind fun value other _ holds => ih.bind fun _ _ _ rest =>
        .value (.cons holds rest)

theorem mapM_of_perm {front : α → Except Cause γ} {values others : List α}
    (order : values.Perm others) :
    SameOutcome List.Perm (values.mapM front) (others.mapM front) := by
  induction order with
  | nil => exact .value (.refl _)
  | cons value _ ih =>
      rw [List.mapM_cons, List.mapM_cons]
      refine (of_refl (fun _ => rfl) (front value)).bind fun result other _ same => ?_
      exact ih.bind fun _ _ _ rest => .value (same ▸ rest.cons result)
  | swap first second rest =>
      simp only [List.mapM_cons]
      cases front first with
      | error cause => cases front second <;> exact .cause _ _
      | ok value =>
          cases front second with
          | error other => exact .cause _ _
          | ok other =>
              cases rest.mapM front with
              | error last => exact .cause _ _
              | ok results => exact .value (.swap _ _ _)
  | trans _ _ ihFirst ihSecond =>
      refine (ihFirst.comp ihSecond).mono ?_
      intro results others composed
      obtain ⟨middle, front, back⟩ := composed
      exact front.trans back

end SameOutcome

/-- Entries in any order are gone through alike, when an entry is treated like one with the same key
and a related value. -/
theorem Unordered.mapM {κ : Type} {firsts : List (κ × α)} {seconds : List (κ × β)}
    (unordered : Unordered related firsts seconds) {front : κ × α → Except Cause γ}
    {back : κ × β → Except Cause δ}
    (each : ∀ key value other, related value other →
      SameOutcome next (front (key, value)) (back (key, other))) :
    SameOutcome (Relation.Comp (List.Forall₂ next) List.Perm) (firsts.mapM front)
      (seconds.mapM back) := by
  obtain ⟨listed, keyed, order⟩ := unordered
  refine (SameOutcome.mapM ?_).comp (SameOutcome.mapM_of_perm order)
  refine keyed.imp fun first second pair => ?_
  obtain ⟨key, value⟩ := first
  obtain ⟨_, other⟩ := second
  obtain ⟨rfl, alike⟩ := pair
  exact each key value other alike

/-- The second result is the first one when this is a value. -/
def Kept (first second : Except Cause α) : Prop :=
  ∀ ⦃value⦄, first = .ok value → second = .ok value

namespace Kept

variable {first second : Except Cause α}

theorem refl (result : Except Cause α) : Kept result result :=
  fun _ known => known

theorem of_error (cause : Cause) (second : Except Cause α) : Kept (.error cause) second :=
  nofun

theorem bind (kept : Kept first second) {front back : α → Except Cause γ}
    (holds : ∀ value, first = .ok value → Kept (front value) (back value)) :
    Kept (first >>= front) (second >>= back) := by
  cases first with
  | error cause => exact .of_error cause _
  | ok value =>
      rw [kept rfl]
      exact holds value rfl

theorem map (kept : Kept first second) (function : α → γ) :
    Kept (first.map function) (second.map function) := by
  cases first with
  | error cause => exact .of_error cause _
  | ok value =>
      rw [kept rfl]
      exact .refl _

theorem mapM {front : α → Except Cause γ} {back : β → Except Cause γ} {values : List α}
    {others : List β}
    (each : List.Forall₂ (fun value other => Kept (front value) (back other)) values others) :
    Kept (values.mapM front) (others.mapM back) := by
  induction each with
  | nil => exact .refl _
  | cons first _ ih =>
      rw [List.mapM_cons, List.mapM_cons]
      apply first.bind
      intro value _
      apply ih.bind
      intro values _
      exact .refl _

theorem foldlM {front : δ → α → Except Cause δ} {back : δ → β → Except Cause δ} {values : List α}
    {others : List β}
    (each : List.Forall₂ (fun value other => ∀ state, Kept (front state value) (back state other))
      values others) (state : δ) :
    Kept (values.foldlM front state) (others.foldlM back state) := by
  induction each generalizing state with
  | nil => exact .refl _
  | cons first _ ih =>
      rw [List.foldlM_cons, List.foldlM_cons]
      apply (first state).bind
      intro next _
      exact ih next

end Kept

end ConfigScript
