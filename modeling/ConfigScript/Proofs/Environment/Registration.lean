import ConfigScript.Proofs.Environment.Binding

/-!
# What is registered can be bound

A loader and an environment take sets of variants one after another and keep different things, the
sets themselves and an owner for each name. Still they take the same lists of sets, in any order. So
the sets that a loader accepts, whatever it refused in between, are all bound by each load.
-/

set_option autoImplicit false

namespace ConfigScript

namespace VariantSet

variable {sets others : List VariantSet}

theorem consistent_iff : Consistent sets ↔ (∀ set ∈ sets, set.names.Nodup) ∧
    ∀ first ∈ sets, ∀ second ∈ sets, first.base ≠ second.base →
      ∀ name ∈ first.names, name ∉ second.names := by
  constructor
  · intro consistent
    refine ⟨consistent.distinct, fun first member second also differs => ?_⟩
    exact (consistent.compatible first member second also).resolve_left differs
  · intro both
    obtain ⟨distinct, apart⟩ := both
    refine ⟨distinct, fun first member second also => ?_⟩
    by_cases same : first.base = second.base
    · exact .inl same
    · exact .inr (apart first member second also same)

theorem consistent_iff_of_perm (order : others.Perm sets) : Consistent others ↔ Consistent sets :=
  ⟨fun consistent => consistent.mono order.symm.subset,
    fun consistent => consistent.mono order.subset⟩

end VariantSet

namespace Loader

variable {loader next : Loader} {first set : VariantSet}

/-- Whether a loader knows some sets and no others. -/
def Knows (loader : Loader) (known : List VariantSet) : Prop :=
  ∀ set, set ∈ loader.sets ↔ set ∈ known

theorem mem_sets_of_register (accepted : loader.register first = .ok next) (set : VariantSet) :
    set ∈ next.sets ↔ set ∈ loader.sets ∨ set = first := by
  obtain ⟨-, -, rfl⟩ := register_eq_ok_iff.1 accepted
  by_cases again : first ∈ loader.sets
  · rw [if_pos again, iff_self_or]
    rintro rfl
    exact again
  · rw [if_neg again, List.mem_append, List.mem_singleton]

theorem gathers_register : VariantSet.Gathers register Knows where
  exists_iff := by
    intro loader known set knows
    simp only [register_eq_ok_iff, exists_and_left, exists_eq, and_true]
    exact and_congr_right fun _ => forall_congr' fun other => imp_congr_left (knows other)
  keeps := by
    intro loader next known set knows accepted other
    rw [mem_sets_of_register accepted, knows other, List.mem_append, List.mem_singleton]

/-- Whether a set is accepted at its turn among some attempts. -/
def Accepts (loader : Loader) (attempts : List VariantSet) (set : VariantSet) : Prop :=
  ∃ before after, attempts = before ++ set :: after ∧
    ∃ next, (before.foldl attempt loader).register set = .ok next

theorem accepts_cons_iff {rest : List VariantSet} : loader.Accepts (first :: rest) set ↔
    (set = first ∧ ∃ next, loader.register first = .ok next) ∨
      (loader.attempt first).Accepts rest set := by
  constructor
  · intro accepts
    obtain ⟨before, after, split, accepted⟩ := accepts
    cases before with
    | nil =>
        cases split
        exact .inl ⟨rfl, accepted⟩
    | cons earlier before =>
        cases split
        exact .inr ⟨before, after, rfl, accepted⟩
  · intro accepts
    obtain ⟨rfl, accepted⟩ | ⟨before, after, rfl, accepted⟩ := accepts
    · exact ⟨[], rest, rfl, accepted⟩
    · exact ⟨first :: before, after, rfl, accepted⟩

theorem mem_sets_attempt : set ∈ (loader.attempt first).sets ↔
    set ∈ loader.sets ∨ set = first ∧ ∃ next, loader.register first = .ok next := by
  unfold attempt
  cases accepted : loader.register first with
  | error error => simp
  | ok next => simp [mem_sets_of_register accepted]

/-- What a loader knows after some attempts are the sets that it knew and those it accepted. -/
theorem mem_sets_foldl_attempt {attempts : List VariantSet} :
    set ∈ (attempts.foldl attempt loader).sets ↔
      set ∈ loader.sets ∨ loader.Accepts attempts set := by
  induction attempts generalizing loader with
  | nil =>
      have none : ¬ loader.Accepts [] set := by
        intro accepts
        obtain ⟨before, after, split, -⟩ := accepts
        simp at split
      simp [none]
  | cons first rest ih => rw [List.foldl_cons, ih, mem_sets_attempt, accepts_cons_iff, or_assoc]

theorem Reachable.foldl_attempt (reachable : loader.Reachable) (attempts : List VariantSet) :
    (attempts.foldl attempt loader).Reachable := by
  induction attempts generalizing loader with
  | nil => exact reachable
  | cons first rest ih =>
      refine ih ?_
      unfold attempt
      cases accepted : loader.register first with
      | error error => exact reachable
      | ok next => exact reachable.register accepted

/-- A load hands the environment in which its sets are bound to the evaluator. -/
theorem loadFrom_of_bindAll {start environment : Environment}
    (bound : start.bindAll loader.sets = .ok environment) (evaluator : Evaluator)
    (source : Source) : loader.loadFrom start evaluator source =
      if source.isMissing then .error (.fileNotFound source.label)
      else (evaluator source environment).map fun result =>
        ⟨result.2.heap, result.1, source.label, loader.options⟩ := by
  simp only [loadFrom, bound]
  cases source.isMissing with
  | true => rfl
  | false => cases evaluator source environment <;> rfl

/-- A new loader accepts some sets one after another exactly when an environment without tags, such as
each load starts from, binds them one after another: when no set repeats a name and sets of different
bases share none, in whatever order they come. Attempts that are refused change nothing: each load
binds all the sets that were accepted, so that an error of the evaluator is the only one that is left,
and the names that these sets declare belong to their bases. -/
theorem register_iff_bindAll (heap : Heap) (globals : List (String × Value)) :
    let start := Environment.untagged heap globals
    (∀ sets : List VariantSet,
      ((∃ loader, sets.foldlM register initial = .ok loader) ↔
        ∃ environment, start.bindAll sets = .ok environment) ∧
      ((∃ environment, start.bindAll sets = .ok environment) ↔
        (∀ set ∈ sets, set.names.Nodup) ∧
          ∀ first ∈ sets, ∀ second ∈ sets, first.base ≠ second.base →
            ∀ name ∈ first.names, name ∉ second.names) ∧
      ∀ others : List VariantSet, others.Perm sets →
        ((∃ loader, others.foldlM register initial = .ok loader) ↔
          ∃ loader, sets.foldlM register initial = .ok loader)) ∧
    ∀ (options : Options) (attempts : List VariantSet),
      let fresh : Loader := { initial with options }
      let loader := attempts.foldl attempt fresh
      ∃ environment, start.bindAll loader.sets = .ok environment ∧
        (∀ evaluator source, loader.loadFrom start evaluator source =
          if source.isMissing then .error (.fileNotFound source.label)
          else (evaluator source environment).map fun result =>
            ⟨result.2.heap, result.1, source.label, loader.options⟩) ∧
        ∀ name base, environment.owner? name = some base ↔
          ∃ set, fresh.Accepts attempts set ∧ set.base = base ∧ name ∈ set.names := by
  intro start
  have untagged : start.Binds [] := Environment.binds_untagged heap globals
  have nothing : VariantSet.Consistent [] := ⟨nofun, nofun⟩
  have registers : ∀ sets : List VariantSet,
      (∃ loader, sets.foldlM register initial = .ok loader) ↔ VariantSet.Consistent sets :=
    fun sets => gathers_register.exists_foldlM_iff (fun _ => .rfl) nothing
  have binds : ∀ sets : List VariantSet,
      (∃ environment, start.bindAll sets = .ok environment) ↔ VariantSet.Consistent sets :=
    fun sets => Environment.gathers_bind.exists_foldlM_iff untagged nothing
  constructor
  · intro sets
    refine ⟨(registers sets).trans (binds sets).symm, ?_, fun others order => ?_⟩
    · exact (binds sets).trans VariantSet.consistent_iff
    · rw [registers, registers, VariantSet.consistent_iff_of_perm order]
  · intro options attempts fresh loader
    have reachable : loader.Reachable :=
      (Reachable.initial.configure options).foldl_attempt attempts
    obtain ⟨environment, bound, holds⟩ := untagged.exists_bindAll reachable.consistent
    refine ⟨environment, bound, loadFrom_of_bindAll bound, fun name base => ?_⟩
    rw [holds.owned name base]
    refine exists_congr fun set => and_congr_left fun _ => ?_
    have known : set ∈ loader.sets ↔ set ∈ fresh.sets ∨ fresh.Accepts attempts set :=
      mem_sets_foldl_attempt
    simpa [fresh, initial] using known

/-- Two sets of one base share a name, and a set of another base is refused between them. -/
theorem bindAll_of_shared_square :
    let attempts : List VariantSet :=
      [⟨"Shape", ["circle", "square"]⟩, ⟨"Size", ["small", "square"]⟩,
        ⟨"Shape", ["square", "oval"]⟩]
    let loader := attempts.foldl attempt initial
    (∀ loader, attempts.foldlM register initial ≠ .ok loader) ∧
      ∃ environment, Environment.initial.bindAll loader.sets = .ok environment ∧
        environment.owner? "square" = some "Shape" ∧ environment.owner? "small" = none := by
  intro attempts loader
  obtain ⟨accepted, loaded⟩ :=
    register_iff_bindAll Environment.initial.heap Environment.initial.globals
  obtain ⟨same, binds, -⟩ := accepted attempts
  have refused : ¬ ∃ loader, attempts.foldlM register initial = .ok loader := by
    rw [same, binds]
    intro both
    obtain ⟨-, apart⟩ := both
    exact apart ⟨"Shape", ["circle", "square"]⟩ (by decide) ⟨"Size", ["small", "square"]⟩
      (by decide) (by decide) "square" (by decide) (by decide)
  obtain ⟨environment, bound, -, owners⟩ := loaded {} attempts
  refine ⟨fun loader accepted => refused ⟨loader, accepted⟩, environment, bound, ?_, ?_⟩
  · exact (owners "square" "Shape").2
      ⟨⟨"Shape", ["circle", "square"]⟩, ⟨[], _, rfl, _, rfl⟩, rfl, by decide⟩
  · have computed : Environment.initial.bindAll
        [⟨"Shape", ["circle", "square"]⟩, ⟨"Shape", ["square", "oval"]⟩] = .ok environment := bound
    cases computed
    rfl

end Loader

end ConfigScript
