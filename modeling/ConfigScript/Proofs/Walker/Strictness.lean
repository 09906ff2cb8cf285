import ConfigScript.Proofs.Walker.Growth
import ConfigScript.Proofs.Walker.Nesting
import Mathlib.Data.Nat.Find

/-!
# Strict integers cut a walk short

A walk that refuses floats which may not hold their integer exactly goes along with the walk that
takes them, step by step, until such a float is presented as a value. There the one yields its text
and the other an error, and this error ends it. Keys make no difference, as they are never refused.
-/

set_option autoImplicit false

namespace ConfigScript

open Number

variable {heap : Heap} {value : Value} {x : Double}

/-- Only floats that may not hold their integer exactly are shaped otherwise when strict. -/
theorem Value.shape_strict_eq
    (exact : ∀ x, value = .float x → x.isImpreciseInteger = false) (heap : Heap) :
    value.shape heap true = value.shape heap false := by
  cases value with
  | float x => simp only [shape, exact x rfl, Bool.and_false]
  | nil | boolean | integer | string | table | function | foreign => rfl

namespace Level

variable {levels outer : List Level} {options other : Options}

/-- The value that the next step presents. There is none where it presents a key or an end. -/
def presented? : List Level → Option Value
  | [] => none
  | .closed :: outer => presented? outer
  | .single value :: _ => some value
  | .entry value _ :: _ => some value
  | .elements (value :: _) :: _ => some value
  | .elements [] :: _ => none
  | .entries _ :: _ => none

theorem presented?_eq_map_reached? (levels : List Level) :
    presented? levels = (reached? levels).map (·.1) := by
  induction levels with
  | nil => rfl
  | cons level outer ih =>
      cases level with
      | closed => exact ih
      | single | entry | entries => rfl
      | elements rest => cases rest <;> rfl

/-- A step that presents a value enters it, whatever the options are. -/
theorem exists_step?_eq_enter (presents : presented? levels = some value) :
    ∃ outer, ∀ heap options,
      step? heap options levels = some (enter heap options value outer) := by
  rw [presented?_eq_map_reached?, Option.map_eq_some_iff] at presents
  obtain ⟨⟨value, outer⟩, reached, rfl⟩ := presents
  exact ⟨outer, fun _ _ => step?_of_reached reached⟩

/-- A step that presents no value does not ask for the options. -/
theorem step?_eq_of_presented?_eq_none (none : presented? levels = none) (heap : Heap)
    (options other : Options) : step? heap options levels = step? heap other levels := by
  rw [presented?_eq_map_reached?, Option.map_eq_none_iff] at none
  exact (step?_of_not_reached none other).1

theorem enter_congr
    (shape : value.shape heap options.strictIntegers = value.shape heap other.strictIntegers)
    (depth : options.maxDepth = other.maxDepth) (outer : List Level) :
    enter heap options value outer = enter heap other value outer := by
  unfold enter
  rw [shape, depth]

end Level

namespace Walker

variable {walker rest : Walker}

/-- The number is what the next pull presents as a value, and it may not hold its integer
exactly. -/
structure Meets (walker : Walker) (x : Double) : Prop where
  presents : Level.presented? walker.stack = some (.float x)
  imprecise : x.isImpreciseInteger = true

/-- The walker at the same place that refuses floats which may not hold their integer exactly. -/
def strictly (walker : Walker) : Walker :=
  { walker with options := { walker.options with strictIntegers := true } }

theorem step?_strictly (lax : walker.options.strictIntegers = false)
    (exact : ∀ x, ¬ walker.Meets x) :
    Level.step? walker.heap walker.strictly.options walker.stack =
      Level.step? walker.heap walker.options walker.stack := by
  cases presents : Level.presented? walker.stack with
  | none => exact Level.step?_eq_of_presented?_eq_none presents _ _ _
  | some value =>
      obtain ⟨outer, enters⟩ := Level.exists_step?_eq_enter presents
      have precise : ∀ x, value = .float x → x.isImpreciseInteger = false := by
        rintro x rfl
        rw [← Bool.not_eq_true]
        exact fun imprecise => exact x ⟨presents, imprecise⟩
      rw [enters, enters]
      apply congrArg some
      apply Level.enter_congr
      · rw [lax]
        exact Value.shape_strict_eq precise walker.heap
      · rfl

/-- A pull that presents no such float makes no difference between the two walkers. -/
theorem next?_strictly (lax : walker.options.strictIntegers = false)
    (exact : ∀ x, ¬ walker.Meets x) :
    walker.strictly.next? = walker.next?.map fun result => (result.1, result.2.strictly) := by
  have same := step?_strictly lax exact
  obtain ⟨heap, options, stack, path⟩ := walker
  cases stepped : Level.step? heap options stack with
  | none =>
      have ended : (Walker.mk heap options stack path).next? = none := next?_eq_none_iff.2 stepped
      rw [ended]
      exact next?_eq_none_iff.2 (same.trans stepped)
  | some result =>
      rcases result with fault | ⟨event, levels⟩
      · rw [next?_of_error stepped]
        exact next?_of_error (same.trans stepped)
      · rw [next?_of_ok stepped]
        exact next?_of_ok (same.trans stepped)

theorem options_of_next? {item : Item Invalid} (pulled : walker.next? = some (item, rest)) :
    rest.options = walker.options := by
  unfold next? at pulled
  split at pulled <;> cases pulled <;> rfl

/-- The text of the float is what the walker yields that takes it. -/
theorem exists_next?_of_meets (lax : walker.options.strictIntegers = false)
    (meets : walker.Meets x) : ∃ rest, walker.next? =
      some (.ok (.primitive x.text, walker.path.push (.primitive x.text)), rest) := by
  obtain ⟨outer, enters⟩ := Level.exists_step?_eq_enter meets.presents
  have shaped : (Value.float x).shape walker.heap walker.options.strictIntegers =
      .ok (.scalar (.float x)) := by
    rw [lax]
    rfl
  have stepped : Level.step? walker.heap walker.options walker.stack =
      some (.ok (.primitive x.text, outer)) :=
    (enters _ _).trans (congrArg some (Level.enter_eq_ok_iff.2 (.scalar (.float x) shaped)))
  exact ⟨_, next?_of_ok stepped⟩

/-- An error at the path that has been reached is what the walker yields that refuses it. -/
theorem next?_strictly_of_meets (meets : walker.Meets x) : walker.strictly.next? =
    some (.error ⟨walker.path, .imprecise x⟩, { walker.strictly with stack := [] }) := by
  obtain ⟨outer, enters⟩ := Level.exists_step?_eq_enter meets.presents
  have shaped : (Value.float x).shape walker.heap true = .error (.imprecise x) := by
    rw [Value.shape, meets.imprecise]
    rfl
  have stepped : Level.step? walker.heap walker.strictly.options walker.stack =
      some (.error (.imprecise x)) := by
    rw [enters]
    unfold Level.enter
    rw [show walker.strictly.options.strictIntegers = true from rfl, shaped]
  exact next?_of_error stepped

/-- As long as no such float is presented, the two walkers yield the same items and are at the same
place. -/
theorem run_strictly {pulls : Nat} (lax : walker.options.strictIntegers = false)
    (exact : ∀ earlier, earlier < pulls → ∀ x, ¬ (walker.after earlier).Meets x) :
    walker.strictly.items pulls = walker.items pulls ∧
      walker.strictly.after pulls = (walker.after pulls).strictly := by
  induction pulls generalizing walker with
  | zero => exact ⟨rfl, rfl⟩
  | succ pulls ih =>
      have same := next?_strictly lax (exact 0 (Nat.succ_pos pulls))
      cases pulled : walker.next? with
      | none =>
          rw [pulled] at same
          rw [items_of_finished _ pulled, items_of_finished _ same, after_of_finished _ pulled,
            after_of_finished _ same]
          exact ⟨rfl, rfl⟩
      | some result =>
          obtain ⟨item, rest⟩ := result
          rw [pulled] at same
          have exactRest : ∀ earlier, earlier < pulls → ∀ x, ¬ (rest.after earlier).Meets x := by
            intro earlier before x
            rw [← after_succ_of_next earlier pulled]
            exact exact (earlier + 1) (Nat.succ_lt_succ before) x
          obtain ⟨items, after⟩ := ih ((options_of_next? pulled).symm ▸ lax) exactRest
          rw [items_succ_of_next _ pulled, items_succ_of_next _ same, after_succ_of_next _ pulled,
            after_succ_of_next _ same, items, after]
          exact ⟨rfl, rfl⟩

/-- A walk that has not ended has yielded one event with each pull. -/
theorem exists_events_of_next? {heap : Heap} {options : Options} {root : Value} {path : Path}
    {pulls : Nat} (going : ((Walker.start heap options root path).after pulls).next? ≠ none) :
    ∃ events : List Event, events.length = pulls ∧
      (Walker.start heap options root path).items pulls = path.items events ∧
      ((Walker.start heap options root path).after pulls).path = path.pushAll events := by
  cases pulled heap options [.single root] pulls with
  | ended events last walks length ends =>
      exact absurd (next?_after_of_ended walks (Nat.le_of_lt length) ends) going
  | failed events last fault walks length failure =>
      exact absurd (next?_after_of_failed walks length failure) going
  | going events last walks length =>
      subst length
      have yielded : (Walker.start heap options root path).items events.length =
          path.items events := items_length_of_walks walks
      refine ⟨events, rfl, yielded, ?_⟩
      rw [(Traced.of_start heap options root path events.length).path_eq_following, yielded,
        Item.yielded_items, Path.following_along]

/-- With strict integers a walk yields the same items, unless a float that may not hold its integer
exactly is presented as a value. Then it yields the same items up to the first such float, an error
at the path of the last of them instead of the text of the float, and nothing more. -/
theorem strict_cuts_short (heap : Heap) (options : Options) (root : Value) (path : Path) :
    let lax := Walker.start heap { options with strictIntegers := false } root path
    let strict := Walker.start heap { options with strictIntegers := true } root path
    ((∀ pulls x, ¬ (lax.after pulls).Meets x) ∧
      ∀ pulls, strict.items pulls = lax.items pulls ∧
        (strict.after pulls).isFinished = (lax.after pulls).isFinished) ∨
    ∃ (events : List Event) (x : Double),
      (∀ earlier, earlier < events.length → ∀ y, ¬ (lax.after earlier).Meets y) ∧
      (lax.after events.length).Meets x ∧
      lax.items events.length = path.items events ∧
      lax.items (events.length + 1) = path.items (events ++ [.primitive x.text]) ∧
      ∀ more, events.length < more →
        strict.items more = path.items events ++ [.error ⟨path.pushAll events, .imprecise x⟩] ∧
          (strict.after more).next? = none := by
  intro lax strict
  have same : lax.strictly = strict := rfl
  have unchanged : ∀ pulls, (lax.after pulls).options.strictIntegers = false := by
    intro pulls
    exact congrArg Options.strictIntegers (heap_after lax pulls).2
  have begins : lax.options.strictIntegers = false := rfl
  by_cases met : ∃ pulls x, (lax.after pulls).Meets x
  · right
    classical
    obtain ⟨x, meets⟩ := Nat.find_spec met
    have exact : ∀ earlier, earlier < Nat.find met → ∀ y, ¬ (lax.after earlier).Meets y :=
      fun earlier before y meetsEarlier => Nat.find_min met before ⟨y, meetsEarlier⟩
    obtain ⟨rest, takes⟩ := exists_next?_of_meets (unchanged _) meets
    have going : (lax.after (Nat.find met)).next? ≠ none := by
      rw [takes]
      exact Option.some_ne_none _
    obtain ⟨events, length, yielded, reached⟩ := exists_events_of_next? going
    rw [← length] at meets exact takes yielded reached
    have refuses := next?_strictly_of_meets meets
    obtain ⟨items, after⟩ := run_strictly begins exact
    rw [same] at items after
    rw [← after, reached] at refuses
    refine ⟨events, x, exact, meets, yielded, ?_, fun more later => ?_⟩
    · rw [items_add, yielded, items_succ_of_next 0 takes, reached, path.items_append]
      rfl
    · have ended : (strict.after (events.length + 1)).next? = none := by
        rw [after_add, after_succ_of_next 0 refuses]
        exact next?_eq_none_iff.2 rfl
      obtain ⟨further, rfl⟩ := Nat.exists_eq_add_of_le (Nat.succ_le_of_lt later)
      refine ⟨?_, next?_after_of_le later ended⟩
      rw [items_of_after_finished further ended, items_add, items, yielded,
        items_succ_of_next 0 refuses, items_zero]
  · left
    have exact : ∀ pulls x, ¬ (lax.after pulls).Meets x :=
      fun pulls x meets => met ⟨pulls, x, meets⟩
    refine ⟨exact, fun pulls => ?_⟩
    obtain ⟨items, after⟩ := run_strictly begins fun earlier (_ : earlier < pulls) => exact earlier
    refine ⟨items, ?_⟩
    unfold isFinished
    rw [← same, after, next?_strictly (unchanged pulls) (exact pulls), Option.isNone_map]

end Walker

end ConfigScript
