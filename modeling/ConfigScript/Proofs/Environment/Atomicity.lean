import ConfigScript.Proofs.Environment.Binding
import ConfigScript.Proofs.Value.Table
import ConfigScript.Script.Eval

/-!
# Binding is all or nothing

A set is bound in place: its names are looked at before the first tag is installed, so whatever can
fail has failed by then, and a set that is refused has changed nothing. A host may bind sets and
install functions in any order. The owner of a name never changes on the way, and its global never
becomes nothing, although a host may put another function there.
-/

set_option autoImplicit false

namespace ConfigScript

/-- A value that makes a new table of any argument, which holds a tag and the argument and nothing
else. -/
def Value.MakesCarrier (callee : Value) (tag : String) : Prop :=
  ∀ (argument : Value) (scope : Scope), ∃ after : Scope,
    callee.call? argument scope = some (.table scope.heap.next, after) ∧
      after.names = scope.names ∧
      (∀ key, (after.heap.table scope.heap.next).get key =
        if key = typeKey then .ofText tag else if key = payloadKey then argument else .nil) ∧
      ∀ id, id ≠ scope.heap.next → after.heap.table id = scope.heap.table id

theorem Value.makesCarrier_tagger (tag : String) : (function (.tagger tag)).MakesCarrier tag := by
  intro argument scope
  refine ⟨{ scope with heap := scope.heap.push (carrier tag argument) }, rfl, rfl, ?_, ?_⟩
  · intro key
    rw [Heap.table_push, if_pos rfl, Table.get_carrier]
  · intro id other
    rw [Heap.table_push, if_neg other]

namespace Environment

variable {environment next : Environment} {set : VariantSet} {base name owner : String}
  {names : List String}

section InPlace

theorem run_refuseForeign (base name : String) (environment : Environment) :
    (refuseForeign base name).run environment =
      match environment.owner? name with
      | some owner =>
        if owner = base then .ok () environment
        else .error (.duplicateTag name owner base) environment
      | none => .ok () environment := by
  unfold refuseForeign
  rw [EStateM.run_bind, EStateM.run_get]
  cases owned : environment.owner? name with
  | none => simp only [owned, EStateM.run_pure]
  | some owner =>
      simp only [owned]
      split <;> rfl

theorem run_installTag (base name : String) (environment : Environment) :
    (installTag base name).run environment = .ok () (environment.bindName base name) := by
  unfold installTag bindName
  rw [EStateM.run_bind, EStateM.run_get]
  cases owned : environment.owner? name with
  | none =>
      simp only [owned]
      rfl
  | some owner =>
      simp only [owned]
      rfl

/-- Looking at the names changes nothing, and it fails at the first that is foreign. -/
theorem run_forM_refuseForeign (base : String) (names : List String) (environment : Environment) :
    (forM names (refuseForeign base)).run environment =
      match environment.foreignOwner? base names with
      | some error => .error error environment
      | none => .ok () environment := by
  induction names with
  | nil => rfl
  | cons name rest ih =>
      rw [List.forM_cons, EStateM.run_bind, run_refuseForeign]
      unfold foreignOwner? at ih ⊢
      rw [List.findSome?_cons]
      cases environment.owner? name with
      | none => exact ih
      | some owner =>
          by_cases own : owner = base
          · simp only [if_pos own]
            exact ih
          · simp only [if_neg own]

theorem run_forM_installTag (base : String) (names : List String) (environment : Environment) :
    (forM names (installTag base)).run environment =
      .ok () (names.foldl (bindName base) environment) := by
  induction names generalizing environment with
  | nil => rfl
  | cons name rest ih =>
      rw [List.forM_cons, EStateM.run_bind, run_installTag, List.foldl_cons]
      exact ih (environment.bindName base name)

/-- In place, a set is bound as a whole or the environment stays as it is. -/
theorem run_bindInPlace (set : VariantSet) (environment : Environment) :
    (bindInPlace set).run environment =
      match environment.bind set with
      | .ok next => .ok () next
      | .error error => .error error environment := by
  unfold bindInPlace bind
  cases set.repetition? with
  | some error => rfl
  | none =>
      simp only [EStateM.run_bind, run_forM_refuseForeign]
      cases environment.foreignOwner? set.base set.names with
      | some error => rfl
      | none => exact run_forM_installTag set.base set.names environment

theorem run_bindInPlace_eq_ok_iff :
    (bindInPlace set).run environment = .ok () next ↔ environment.bind set = .ok next := by
  rw [run_bindInPlace]
  cases environment.bind set with
  | ok other => simp
  | error error => simp

theorem run_bindInPlace_eq_error_iff {error : Error} :
    (bindInPlace set).run environment = .error error next ↔
      environment.bind set = .error error ∧ next = environment := by
  rw [run_bindInPlace]
  cases environment.bind set with
  | ok other => simp
  | error other => simp [eq_comm]

end InPlace

section Bound

theorem exists_bind_eq_error_iff : (∃ error, environment.bind set = .error error) ↔
    ¬ set.names.Nodup ∨
      ∃ name ∈ set.names, ∃ owner, environment.owner? name = some owner ∧ owner ≠ set.base := by
  have accepted : (∃ next, environment.bind set = .ok next) ↔ set.names.Nodup ∧
      ∀ name ∈ set.names, ∀ owner, environment.owner? name = some owner → owner = set.base := by
    simp only [bind_eq_ok_iff, exists_and_left, exists_eq, and_true]
  have refused : (∃ error, environment.bind set = .error error) ↔
      ¬ ∃ next, environment.bind set = .ok next := by
    cases environment.bind set with
    | ok next => simp
    | error error => simp
  rw [refused, accepted]
  push Not
  exact Decidable.imp_iff_not_or

/-- Only the names of the set that had no owner get other globals. -/
theorem global_foldl_bindName (base : String) (names : List String) (environment : Environment)
    (name : String) : (names.foldl (bindName base) environment).global name =
      if name ∈ names ∧ environment.owner? name = none then .function (.tagger name)
      else environment.global name := by
  induction names generalizing environment with
  | nil => simp
  | cons declared rest ih =>
      rw [List.foldl_cons, ih, owner?_bindName, global_bindName]
      cases environment.owner? name with
      | some owner => simp
      | none =>
          by_cases same : name = declared
          · simp [same]
          · simp [same]

theorem heap_foldl_bindName (base : String) (names : List String) (environment : Environment) :
    (names.foldl (bindName base) environment).heap = environment.heap := by
  induction names generalizing environment with
  | nil => rfl
  | cons declared rest ih =>
      rw [List.foldl_cons, ih, bindName]
      split <;> rfl

theorem foldl_bindName_of_owned (base : String)
    (owned : ∀ name ∈ names, (environment.owner? name).isSome) :
    names.foldl (bindName base) environment = environment := by
  induction names with
  | nil => rfl
  | cons declared rest ih =>
      obtain ⟨first, others⟩ := List.forall_mem_cons.1 owned
      rw [List.foldl_cons, bindName, if_pos first]
      exact ih others

theorem owner?_of_bind (bound : environment.bind set = .ok next) (name : String) :
    next.owner? name =
      if name ∈ set.names then some set.base else environment.owner? name := by
  obtain ⟨-, own, rfl⟩ := bind_eq_ok_iff.1 bound
  rw [owner?_foldl_bindName]
  by_cases declared : name ∈ set.names
  · rw [if_pos declared, if_pos declared]
    cases owned : environment.owner? name with
    | none => rfl
    | some owner => exact congrArg some (own name declared owner owned)
  · rw [if_neg declared, if_neg declared, Option.or_none]

theorem global_of_bind (bound : environment.bind set = .ok next) (name : String) :
    next.global name =
      if name ∈ set.names ∧ environment.owner? name = none then .function (.tagger name)
      else environment.global name := by
  obtain ⟨-, -, rfl⟩ := bind_eq_ok_iff.1 bound
  exact global_foldl_bindName set.base set.names environment name

/-- A set whose names all belong to its base is bound without any change. -/
theorem bind_of_owned (distinct : set.names.Nodup)
    (owned : ∀ name ∈ set.names, environment.owner? name = some set.base) :
    environment.bind set = .ok environment := by
  refine bind_eq_ok_iff.2 ⟨distinct, ?_, (foldl_bindName_of_owned set.base ?_).symm⟩
  · intro name declared owner known
    exact Option.some.inj (known.symm.trans (owned name declared))
  · intro name declared
    rw [owned name declared]
    rfl

end Bound

section Steps

theorem perform_bind (environment : Environment) (set : VariantSet) :
    environment.perform (.bind set) =
      match environment.bind set with
      | .ok next => next
      | .error _ => environment := by
  rw [perform, run_bindInPlace]
  cases environment.bind set with
  | ok next => rfl
  | error error => rfl

theorem owner?_perform (owned : environment.owner? name = some owner) (step : Step) :
    (environment.perform step).owner? name = some owner := by
  cases step with
  | install installed callable => exact owned
  | bind set =>
      rw [perform_bind]
      cases bound : environment.bind set with
      | error error => exact owned
      | ok next =>
          obtain ⟨-, -, rfl⟩ := bind_eq_ok_iff.1 bound
          rw [owner?_foldl_bindName, owned, Option.some_or]

theorem owner?_performAll (owned : environment.owner? name = some owner) (steps : List Step) :
    (environment.performAll steps).owner? name = some owner := by
  induction steps generalizing environment with
  | nil => exact owned
  | cons step rest ih => exact ih (owner?_perform owned step)

/-- Every name with an owner has a global. -/
def IsDefined (environment : Environment) : Prop :=
  ∀ name owner, environment.owner? name = some owner → environment.hasGlobal name

theorem hasGlobal_iff : environment.hasGlobal name ↔ environment.global name ≠ .nil :=
  decide_eq_true_iff

theorem IsDefined.perform (defined : environment.IsDefined) (step : Step) :
    (environment.perform step).IsDefined := by
  intro name owner owned
  rw [hasGlobal_iff]
  cases step with
  | install installed callable =>
      rw [Environment.perform, global_install]
      split
      · exact Value.noConfusion
      · exact hasGlobal_iff.1 (defined name owner owned)
  | bind set =>
      rw [perform_bind] at owned ⊢
      cases bound : environment.bind set with
      | error error =>
          rw [bound] at owned
          exact hasGlobal_iff.1 (defined name owner owned)
      | ok next =>
          rw [bound] at owned
          simp only [global_of_bind bound]
          split
          · exact Value.noConfusion
          · next kept =>
              cases before : environment.owner? name with
              | some known => exact hasGlobal_iff.1 (defined name known before)
              | none =>
                  have undeclared : name ∉ set.names := fun declared => kept ⟨declared, before⟩
                  simp only [owner?_of_bind bound, if_neg undeclared, before] at owned
                  cases owned

theorem IsDefined.performAll (defined : environment.IsDefined) (steps : List Step) :
    (environment.performAll steps).IsDefined := by
  induction steps generalizing environment with
  | nil => exact defined
  | cons step rest ih => exact ih (defined.perform step)

theorem isDefined_untagged (heap : Heap) (globals : List (String × Value)) :
    (untagged heap globals).IsDefined :=
  nofun

end Steps

/-- After any steps of a host, whatever globals there were at first, a set is refused exactly when it
repeats a name or has one that belongs to another base, and then nothing has changed. Otherwise its
names belong to its base, those that had no owner are tags now, and nothing else has changed. An owner
is never replaced, a name with an owner has a global, and a set that was bound once can be bound again
at any time without a change. -/
theorem bindInPlace_all_or_nothing (heap : Heap) (globals : List (String × Value))
    (steps : List Step) (set : VariantSet) :
    let environment := (untagged heap globals).performAll steps
    ((∃ error after, (bindInPlace set).run environment = .error error after) ↔
      ¬ set.names.Nodup ∨
        ∃ name ∈ set.names, ∃ owner, environment.owner? name = some owner ∧ owner ≠ set.base) ∧
    (∀ error after, (bindInPlace set).run environment = .error error after →
      after = environment) ∧
    (∀ after, (bindInPlace set).run environment = .ok () after →
      (∀ name, after.owner? name =
        if name ∈ set.names then some set.base else environment.owner? name) ∧
      (∀ name, name ∈ set.names → environment.owner? name = none →
        (after.global name).MakesCarrier name) ∧
      (∀ name, (name ∈ set.names → environment.owner? name ≠ none) →
        after.global name = environment.global name) ∧
      after.heap = environment.heap ∧
      ∀ more, let later := after.performAll more
        (bindInPlace set).run later = .ok () later) ∧
    ∀ name owner, environment.owner? name = some owner →
      environment.hasGlobal name ∧
        ∀ more, (environment.performAll more).owner? name = some owner := by
  intro environment
  refine ⟨?_, ?_, ?_, ?_⟩
  · simp only [run_bindInPlace_eq_error_iff, exists_and_left, exists_eq, and_true]
    exact exists_bind_eq_error_iff
  · intro error after failed
    exact (run_bindInPlace_eq_error_iff.1 failed).2
  · intro after done
    have bound := run_bindInPlace_eq_ok_iff.1 done
    obtain ⟨distinct, -, result⟩ := bind_eq_ok_iff.1 bound
    refine ⟨owner?_of_bind bound, ?_, ?_, ?_, ?_⟩
    · intro name declared free
      rw [global_of_bind bound, if_pos ⟨declared, free⟩]
      exact Value.makesCarrier_tagger name
    · intro name kept
      rw [global_of_bind bound, if_neg fun new => kept new.1 new.2]
    · rw [result, heap_foldl_bindName]
    · intro more later
      apply run_bindInPlace_eq_ok_iff.2
      apply bind_of_owned distinct
      intro name declared
      have owned : after.owner? name = some set.base := by
        rw [owner?_of_bind bound, if_pos declared]
      exact owner?_performAll owned more
  · intro name owner owned
    have defined := (isDefined_untagged heap globals).performAll steps
    exact ⟨defined name owner owned, owner?_performAll owned⟩

/-- A set that shares its second name with another base leaves its first name free. -/
example : let environment := initial.perform (.bind ⟨"Shape", ["a", "b"]⟩)
    (bindInPlace ⟨"Color", ["red", "b"]⟩).run environment =
      .error (.duplicateTag "b" "Shape" "Color") environment ∧
        environment.hasGlobal "red" = false :=
  ⟨rfl, rfl⟩

end Environment

end ConfigScript
