import ConfigScript.Loader

/-!
# Registering and binding variants

A loader keeps sets of variants that can be bound together: no set repeats a name, and no two bases
share one. Binding such sets one after another in a fresh environment succeeds, and then each name
is owned by its base and is the global that makes its tag.
-/

set_option autoImplicit false

namespace ConfigScript

namespace VariantSet

variable {set first second : VariantSet}

theorem firstRepeated?_eq_none_iff {seen names : List String} :
    firstRepeated? seen names = none ↔ names.Nodup ∧ ∀ name ∈ names, name ∉ seen := by
  induction names generalizing seen with
  | nil => simp [firstRepeated?]
  | cons name rest ih =>
      by_cases met : name ∈ seen
      · simp [firstRepeated?, met]
      · rw [firstRepeated?, if_neg met, ih, List.nodup_cons, List.forall_mem_cons]
        constructor
        · rintro ⟨distinct, fresh⟩
          have unseen : ∀ other ∈ rest, other ∉ seen :=
            fun other member earlier => fresh other member (List.mem_cons_of_mem _ earlier)
          exact ⟨⟨fun again => fresh name again List.mem_cons_self, distinct⟩, met, unseen⟩
        · rintro ⟨⟨once, distinct⟩, -, unseen⟩
          refine ⟨distinct, fun other member earlier => ?_⟩
          cases List.mem_cons.1 earlier with
          | inl same => exact once (same ▸ member)
          | inr earlier => exact unseen other member earlier

theorem repetition?_eq_none_iff : set.repetition? = none ↔ set.names.Nodup := by
  rw [repetition?, Option.map_eq_none_iff, repeated?, firstRepeated?_eq_none_iff]
  simp

/-- Sets that may be bound in one environment: different bases share no name. -/
def Compatible (first second : VariantSet) : Prop :=
  first.base = second.base ∨ ∀ name ∈ first.names, name ∉ second.names

theorem Compatible.symm (compatible : first.Compatible second) : second.Compatible first := by
  cases compatible with
  | inl same => exact .inl same.symm
  | inr disjoint => exact .inr fun name member shared => disjoint name shared member

theorem conflict?_eq_none_iff : first.conflict? second = none ↔ first.Compatible second := by
  unfold conflict? Compatible
  by_cases same : first.base = second.base
  · simp [same]
  · simp [same, List.find?_eq_none]

/-- Sets that can be bound together. -/
structure Consistent (sets : List VariantSet) : Prop where
  distinct : ∀ set ∈ sets, set.names.Nodup
  compatible : ∀ first ∈ sets, ∀ second ∈ sets, first.Compatible second

theorem Consistent.mono {sets others : List VariantSet} (consistent : Consistent sets)
    (fewer : others ⊆ sets) : Consistent others :=
  ⟨fun set member => consistent.distinct set (fewer member),
    fun first member second also => consistent.compatible first (fewer member) second (fewer also)⟩

theorem Consistent.append {sets : List VariantSet} (consistent : Consistent sets)
    (distinct : set.names.Nodup) (compatible : ∀ known ∈ sets, known.Compatible set) :
    Consistent (sets ++ [set]) := by
  constructor
  · rw [List.forall_mem_append]
    exact ⟨consistent.distinct, List.forall_mem_singleton.2 distinct⟩
  · simp only [List.forall_mem_append, List.forall_mem_singleton]
    exact ⟨fun first member => ⟨consistent.compatible first member, compatible first member⟩,
      fun known member => (compatible known member).symm, .inl rfl⟩

variable {σ : Type} {take : σ → VariantSet → Except Error σ} {holds : σ → List VariantSet → Prop}
  {state next : σ} {known sets : List VariantSet}

/-- States that take sets one after another: a set is taken exactly when it repeats no name and is
compatible with those that the state holds. -/
structure Gathers (take : σ → VariantSet → Except Error σ)
    (holds : σ → List VariantSet → Prop) : Prop where
  exists_iff : ∀ {state known set}, holds state known →
    ((∃ next, take state set = .ok next) ↔
      set.names.Nodup ∧ ∀ first ∈ known, first.Compatible set)
  keeps : ∀ {state next known set}, holds state known → take state set = .ok next →
    holds next (known ++ [set])

namespace Gathers

theorem foldlM_keeps (gathers : Gathers take holds) (held : holds state known)
    (taken : sets.foldlM take state = .ok next) : holds next (known ++ sets) := by
  induction sets generalizing state known with
  | nil =>
      cases taken
      rwa [List.append_nil]
  | cons set rest ih =>
      rw [List.foldlM_cons] at taken
      cases first : take state set with
      | error error =>
          rw [first] at taken
          cases taken
      | ok middle =>
          rw [first] at taken
          rw [List.append_cons]
          exact ih (gathers.keeps held first) taken

/-- Sets are all taken exactly when they are consistent, together with those held before. -/
theorem exists_foldlM_iff (gathers : Gathers take holds) (held : holds state known)
    (consistent : Consistent known) :
    (∃ next, sets.foldlM take state = .ok next) ↔ Consistent (known ++ sets) := by
  induction sets generalizing state known with
  | nil =>
      rw [List.append_nil]
      exact iff_of_true ⟨state, rfl⟩ consistent
  | cons set rest ih =>
      rw [List.append_cons, List.foldlM_cons]
      constructor
      · rintro ⟨next, taken⟩
        cases first : take state set with
        | error error =>
            rw [first] at taken
            cases taken
        | ok middle =>
            rw [first] at taken
            obtain ⟨distinct, compatible⟩ := (gathers.exists_iff held).1 ⟨middle, first⟩
            have consistentNext := consistent.append distinct compatible
            exact (ih (gathers.keeps held first) consistentNext).1 ⟨next, taken⟩
      · intro whole
        have distinct : set.names.Nodup := whole.distinct set (by simp)
        have compatible : ∀ earlier ∈ known, earlier.Compatible set := by
          intro earlier member
          exact whole.compatible earlier (by simp [member]) set (by simp)
        obtain ⟨middle, first⟩ := (gathers.exists_iff held).2 ⟨distinct, compatible⟩
        have consistentNext := consistent.append distinct compatible
        rw [first]
        exact (ih (gathers.keeps held first) consistentNext).2 whole

end Gathers

end VariantSet

namespace Loader

variable {loader next : Loader} {set : VariantSet}

/-- The loaders that a program can make: registering and choosing options, starting from nothing. -/
inductive Reachable : Loader → Prop
  | initial : Reachable .initial
  | configure {loader : Loader} (options : Options) (reachable : Reachable loader) :
      Reachable { loader with options }
  | register {loader next : Loader} {set : VariantSet} (reachable : Reachable loader)
      (accepted : loader.register set = .ok next) : Reachable next

theorem register_eq_ok_iff : loader.register set = .ok next ↔
    set.names.Nodup ∧ (∀ known ∈ loader.sets, known.Compatible set) ∧
      next = if set ∈ loader.sets then loader else { loader with sets := loader.sets ++ [set] } := by
  unfold register
  cases repetition : set.repetition? with
  | some error =>
      have repeats : ¬ set.names.Nodup := by
        rw [← VariantSet.repetition?_eq_none_iff, repetition]
        exact nofun
      simp [repeats]
  | none =>
      have distinct := VariantSet.repetition?_eq_none_iff.1 repetition
      cases conflict : loader.sets.findSome? fun known => known.conflict? set with
      | some error =>
          obtain ⟨known, member, conflicts⟩ := List.exists_of_findSome?_eq_some conflict
          have incompatible : ¬ known.Compatible set := by
            rw [← VariantSet.conflict?_eq_none_iff, conflicts]
            exact nofun
          refine iff_of_false nofun ?_
          rintro ⟨-, compatible, -⟩
          exact incompatible (compatible known member)
      | none =>
          have compatible : ∀ known ∈ loader.sets, known.Compatible set := by
            intro known member
            rw [← VariantSet.conflict?_eq_none_iff]
            exact List.findSome?_eq_none_iff.1 conflict known member
          have same : (if set ∈ loader.sets then .ok loader
              else .ok { loader with sets := loader.sets ++ [set] } : Except Error Loader) =
              .ok (if set ∈ loader.sets then loader
                else { loader with sets := loader.sets ++ [set] }) := by
            split <;> rfl
          simp only [same, Except.ok.injEq]
          constructor
          · intro accepted
            exact ⟨distinct, compatible, accepted.symm⟩
          · rintro ⟨-, -, rfl⟩
            rfl

/-- What a loader accepts can be bound. -/
theorem Reachable.consistent (reachable : loader.Reachable) :
    VariantSet.Consistent loader.sets := by
  induction reachable with
  | initial => exact ⟨nofun, nofun⟩
  | configure options _ ih => exact ih
  | @register loader next set _ accepted ih =>
      obtain ⟨distinct, compatible, rfl⟩ := register_eq_ok_iff.1 accepted
      by_cases again : set ∈ loader.sets
      · rwa [if_pos again]
      · rw [if_neg again]
        exact ih.append distinct compatible

end Loader

namespace Environment

variable {environment next : Environment} {set : VariantSet} {base name : String}

theorem owner?_bindName (base declared : String) (environment : Environment) (name : String) :
    (environment.bindName base declared).owner? name =
      (environment.owner? name).or (if name = declared then some base else none) := by
  unfold bindName
  by_cases owned : (environment.owner? declared).isSome
  · rw [if_pos owned]
    by_cases same : name = declared
    · subst same
      exact (Option.or_of_isSome owned).symm
    · rw [if_neg same, Option.or_none]
  · rw [if_neg owned]
    by_cases same : name = declared
    · subst same
      rw [Option.not_isSome_iff_eq_none.1 owned, if_pos rfl]
      exact List.lookup_cons_self
    · rw [if_neg same, Option.or_none]
      exact List.lookup_cons.trans (by rw [beq_eq_false_iff_ne.2 same]; rfl)

/-- A name that was owned keeps its owner, and the others that are bound get the base. -/
theorem owner?_foldl_bindName (base : String) (names : List String) (environment : Environment)
    (name : String) : (names.foldl (bindName base) environment).owner? name =
      (environment.owner? name).or (if name ∈ names then some base else none) := by
  induction names generalizing environment with
  | nil => simp
  | cons declared rest ih =>
      rw [List.foldl_cons, ih, owner?_bindName]
      cases environment.owner? name with
      | some owner => rfl
      | none =>
          by_cases same : name = declared
          · simp [same]
          · simp [same]

theorem global_install (environment : Environment) (installed : String) (value : Value)
    (name : String) : (environment.install installed value).global name =
      if name = installed then value else environment.global name := by
  rw [global, install]
  by_cases same : name = installed
  · rw [if_pos same, same, List.lookup_cons_self, Option.getD_some]
  · rw [if_neg same, List.lookup_cons, beq_eq_false_iff_ne.2 same]
    rfl

theorem global_bindName (base declared : String) (environment : Environment) (name : String) :
    (environment.bindName base declared).global name =
      if name = declared ∧ environment.owner? name = none then .function (.tagger name)
      else environment.global name := by
  unfold bindName
  cases owned : environment.owner? declared with
  | some owner =>
      have kept : ¬ (name = declared ∧ environment.owner? name = none) := by
        rintro ⟨rfl, free⟩
        cases owned.symm.trans free
      rw [if_neg kept]
      rfl
  | none =>
      refine (global_install environment declared (.function (.tagger declared)) name).trans ?_
      by_cases same : name = declared
      · rw [if_pos same, if_pos ⟨same, same ▸ owned⟩, same]
      · rw [if_neg same, if_neg fun both => same both.1]

/-- The owned names are the tags: the global of each makes its carriers. -/
def IsTagged (environment : Environment) : Prop :=
  ∀ name owner, environment.owner? name = some owner →
    environment.global name = .function (.tagger name)

theorem IsTagged.bindName (tagged : environment.IsTagged) (base declared : String) :
    (environment.bindName base declared).IsTagged := by
  intro name owner owned
  rw [owner?_bindName] at owned
  rw [global_bindName]
  cases before : environment.owner? name with
  | some known =>
      rw [if_neg fun both => by cases both.2]
      exact tagged name known before
  | none =>
      rw [before, Option.none_or] at owned
      by_cases same : name = declared
      · rw [if_pos ⟨same, rfl⟩]
      · rw [if_neg same] at owned
        cases owned

theorem IsTagged.foldl_bindName (tagged : environment.IsTagged) (base : String)
    (names : List String) : (names.foldl (Environment.bindName base) environment).IsTagged := by
  induction names generalizing environment with
  | nil => exact tagged
  | cons declared rest ih => exact ih (tagged.bindName base declared)

theorem foreignOwner?_eq_none_iff {names : List String} :
    environment.foreignOwner? base names = none ↔
      ∀ name ∈ names, ∀ owner, environment.owner? name = some owner → owner = base := by
  rw [foreignOwner?, List.findSome?_eq_none_iff]
  refine forall₂_congr fun name _ => ?_
  cases environment.owner? name with
  | none => simp
  | some owner => simp

theorem bind_eq_ok_iff : environment.bind set = .ok next ↔
    set.names.Nodup ∧
      (∀ name ∈ set.names, ∀ owner, environment.owner? name = some owner → owner = set.base) ∧
      next = set.names.foldl (bindName set.base) environment := by
  rw [← VariantSet.repetition?_eq_none_iff, ← foreignOwner?_eq_none_iff]
  unfold bind
  cases set.repetition? with
  | some error => simp
  | none =>
      cases environment.foreignOwner? set.base set.names with
      | some error => simp
      | none => simp [eq_comm]

/-- An environment in which some sets are bound and nothing else: each name is owned by the base of
a set that declares it, and it makes its tag. -/
structure Binds (environment : Environment) (sets : List VariantSet) : Prop where
  owned : ∀ name base, environment.owner? name = some base ↔
    ∃ set ∈ sets, set.base = base ∧ name ∈ set.names
  tagged : environment.IsTagged

theorem binds_untagged (heap : Heap) (globals : List (String × Value)) :
    (untagged heap globals).Binds [] :=
  ⟨fun _ _ => iff_of_false nofun nofun, nofun⟩

/-- A set is bound exactly when it repeats no name and is compatible with the sets before. -/
theorem Binds.exists_bind_iff {sets : List VariantSet} (binds : environment.Binds sets) :
    (∃ next, environment.bind set = .ok next) ↔
      set.names.Nodup ∧ ∀ known ∈ sets, known.Compatible set := by
  simp only [bind_eq_ok_iff, exists_and_left, exists_eq, and_true]
  refine and_congr_right fun _ => ?_
  constructor
  · intro own known member
    by_cases shared : ∃ name ∈ known.names, name ∈ set.names
    · obtain ⟨name, declared, again⟩ := shared
      exact .inl (own name again known.base ((binds.owned name known.base).2
        ⟨known, member, rfl, declared⟩))
    · exact .inr fun name declared again => shared ⟨name, declared, again⟩
  · intro compatible name declared owner owned
    obtain ⟨known, member, rfl, also⟩ := (binds.owned name owner).1 owned
    cases compatible known member with
    | inl same => exact same
    | inr disjoint => exact absurd declared (disjoint name also)

theorem Binds.bind {sets : List VariantSet} (binds : environment.Binds sets)
    (bound : environment.bind set = .ok next) : next.Binds (sets ++ [set]) := by
  obtain ⟨_, own, rfl⟩ := bind_eq_ok_iff.1 bound
  refine ⟨fun name base => ?_, binds.tagged.foldl_bindName set.base set.names⟩
  rw [owner?_foldl_bindName]
  simp only [List.mem_append, List.mem_singleton, or_and_right, exists_or, exists_eq_left]
  rw [← binds.owned name base]
  cases owned : environment.owner? name with
  | none => simp [and_comm]
  | some owner =>
      have same := fun declared => own name declared owner owned
      constructor
      · exact .inl
      · rintro (found | ⟨rfl, declared⟩)
        · exact found
        · exact congrArg some (same declared)

theorem gathers_bind : VariantSet.Gathers bind Binds :=
  ⟨fun binds => binds.exists_bind_iff, fun binds bound => binds.bind bound⟩

theorem Binds.exists_bindAll {known sets : List VariantSet} (binds : environment.Binds known)
    (consistent : VariantSet.Consistent (known ++ sets)) :
    ∃ next, environment.bindAll sets = .ok next ∧ next.Binds (known ++ sets) := by
  have consistentKnown := consistent.mono (List.subset_append_left known sets)
  obtain ⟨next, bound⟩ := (gathers_bind.exists_foldlM_iff binds consistentKnown).2 consistent
  exact ⟨next, bound, gathers_bind.foldlM_keeps binds bound⟩

end Environment

end ConfigScript
